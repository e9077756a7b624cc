/-
What the retry tee is given.  An enqueued datagram is copied to the tee by a flag that the
enqueueing path sets, without a look at the datagram.  The paths that stamp, split or
bundle set it and so do those that relay as they came; the datagrams teed are therefore
exactly those with a SeqNum, unless a legacy frame is forwarded.
-/
import ShardProxy.EmittingPaths
import ShardProxy.RetryKeys
import ShardProxy.RetryTee
import ShardProxy.VerbatimRelay

namespace ShardProxy

open ByteField Dispenser IssueLog

/-- The frame versions with a SeqNum in bytes 48 to 55 of their header. -/
def sequencedVersions : List UInt8 :=
  [frameVerV2, frameVerV3, frameVerV4, frameVerV5, frameVerV6, frameVerV8, frameVerV9]

/-- The datagram has a header of such a version, down to its SeqNum. -/
def HasSeqNum (raw : Bytes) : Prop :=
  56 ≤ raw.length ∧ byteAt raw 6 ∈ sequencedVersions

instance (raw : Bytes) : Decidable (HasSeqNum raw) :=
  inferInstanceAs (Decidable (_ ∧ _))

/-- The datagram carries a non-zero SeqNum. -/
def CarriesSeqNum (raw : Bytes) : Prop :=
  HasSeqNum raw ∧ uint64At raw 48 ≠ 0

instance (raw : Bytes) : Decidable (CarriesSeqNum raw) :=
  inferInstanceAs (Decidable (_ ∧ _))

section Tee

/-- `append`: a copy in a pooled buffer, or in one of its own when it is too long. -/
inductive RetryTee.Appends (t : RetryTee) (raw : Bytes) : RetryTee → Prop where
  | pooled {p fresh : Nat} {pool : List Nat} (hflush : t.flush = .idle)
      (hsmall : raw.length ≤ teeBufSize) (hdraw : t.Draw p pool fresh) :
      Appends t raw { t.copied raw p with bufs := t.bufs ++ [p], bufPool := pool, fresh := fresh }
  | made (hflush : t.flush = .idle) (hlarge : teeBufSize < raw.length) :
      Appends t raw { t.copied raw t.fresh with fresh := t.fresh + 1 }

theorem RetryTee.Appends.step {t next : RetryTee} {raw : Bytes} (happends : t.Appends raw next) :
    RetryTee.Step .caller t next := by
  cases happends with
  | pooled hflush hsmall hdraw => exact .append hflush hsmall hdraw
  | made hflush hlarge => exact .appendLarge hflush hlarge

theorem RetryTee.Appends.appended {t next : RetryTee} {raw : Bytes}
    (happends : t.Appends raw next) : next.appended = t.appended ++ [raw] := by
  cases happends <;> rfl

/-- The calls of `enqueue` on an egress with a tee.  A teeable datagram is appended to it;
between the calls the tee takes any other steps. -/
inductive TeeEnqueues : List EnqueueReq → RetryTee → RetryTee → Prop where
  | done {t : RetryTee} : TeeEnqueues [] t t
  | other {actor : TeeActor} {t next after : RetryTee} {reqs : List EnqueueReq}
      (hstep : RetryTee.Step actor t next) (hkept : next.appended = t.appended)
      (hrest : TeeEnqueues reqs next after) : TeeEnqueues reqs t after
  | skipped {t after : RetryTee} {req : EnqueueReq} {reqs : List EnqueueReq}
      (hteeable : req.teeable = false) (hrest : TeeEnqueues reqs t after) :
      TeeEnqueues (req :: reqs) t after
  | teed {t next after : RetryTee} {req : EnqueueReq} {reqs : List EnqueueReq}
      (hteeable : req.teeable = true) (happends : t.Appends req.raw next)
      (hrest : TeeEnqueues reqs next after) : TeeEnqueues (req :: reqs) t after

theorem TeeEnqueues.appended {reqs : List EnqueueReq} {t after : RetryTee}
    (htees : TeeEnqueues reqs t after) :
    after.appended = t.appended ++ (reqs.filter EnqueueReq.teeable).map EnqueueReq.raw := by
  induction htees with
  | done => exact (List.append_nil _).symm
  | other _ hkept _ ih => rw [ih, hkept]
  | skipped hteeable _ ih => rw [ih, List.filter_cons_of_neg (by simp [hteeable])]
  | teed hteeable happends _ ih =>
      rw [ih, happends.appended, List.filter_cons_of_pos hteeable, List.map_cons,
        List.append_assoc, List.singleton_append]

/-- Whatever else happens to the tee, the copies it is given are the datagrams with a
SeqNum, in order and byte for byte. -/
def TeedExactly (reqs : List EnqueueReq) : Prop :=
  ∀ t after, TeeEnqueues reqs t after →
    after.appended = t.appended ++ (reqs.map EnqueueReq.raw).filter fun raw => CarriesSeqNum raw

/-- The datagram's flag says whether it carries a SeqNum. -/
def EnqueueReq.RightlyTeed (req : EnqueueReq) : Prop :=
  req.teeable = true ↔ CarriesSeqNum req.raw

theorem teedExactly_of_rightly {reqs : List EnqueueReq}
    (hrightly : ∀ req ∈ reqs, req.RightlyTeed) : TeedExactly reqs := by
  intro t after htees
  have hsame : reqs.filter EnqueueReq.teeable =
      reqs.filter fun req => CarriesSeqNum req.raw := by
    apply List.filter_congr
    intro req hreq
    rw [Bool.eq_iff_iff, decide_eq_true_iff]
    exact hrightly req hreq
  rw [htees.appended, hsame, List.filter_map]
  rfl

end Tee

section Inputs

variable (env : Env) (groupText : UInt16 → String) (fw : Forwarder)

/-- What the egress of a worker is used for: the events of a run, and control datagrams
in between. -/
inductive TeeInput where
  | worker (event : RunEvent)
  | control (raw : Bytes) (idx : UInt16) (port : Nat)

def TeeInput.step : TeeInput → FwState → FwState
  | .worker event, st => event.step env fw st
  | .control raw idx port, st => (forwardControlTo groupText fw raw idx port st).2

def teeRun (inputs : List TeeInput) (st : FwState) : FwState :=
  inputs.foldl (fun st input => input.step env groupText fw st) st

/-- The numbers an input draws on a flow. -/
def TeeInput.drawn (key : ChainKey) : TeeInput → FwState → Nat
  | .worker event, st => event.drawn env fw key st
  | .control _ _ _, _ => 0

def teeDrawn (key : ChainKey) : List TeeInput → FwState → Nat
  | [], _ => 0
  | input :: rest, st =>
      input.drawn env fw key st + teeDrawn key rest (input.step env groupText fw st)

/-- A datagram with a source that is neither a bundle to relay nor a legacy frame that is
forwarded; a control datagram that does not itself carry a SeqNum. -/
def TeeInput.Sequenced : TeeInput → Prop
  | .worker (.datagram raw src _ _) => src.isSome ∧
      (framed raw → versionByte raw ≠ some frameVerV8) ∧
      (framed raw → ∀ verify f, txGates env fw raw verify = .ok f → f.version ≠ frameVerV1)
  | .worker _ => True
  | .control raw _ _ => ¬ CarriesSeqNum raw

end Inputs

section Issues

variable {env : Env} {fw : Forwarder}

/-- An issue whose flags are right, once its number is not zero. -/
def TeedIssue : Issue ChainKey EnqueueReq → Prop
  | .plain req => req.RightlyTeed
  | .numbered _ reqs => ∀ req ∈ reqs, req.teeable = true ∧ HasSeqNum req.raw

/-- What is sent for such a datagram is stamped, has a header with a SeqNum and is
teeable. -/
structure Outgoing.Sequenced (o : Outgoing fw) : Prop where
  flow : o.flow.isSome
  size : headerSize ≤ o.raw.length
  version : byteAt o.raw 6 ∈ sequencedVersions
  teeable : ∀ sent, ∀ req ∈ o.reqs sent, req.teeable = true

theorem teeable_singleton {own : EnqueueReq} (hown : own.teeable = true) :
    ∀ req ∈ [own], req.teeable = true := by
  intro req hreq
  rw [List.mem_singleton.mp hreq]
  exact hown

theorem Admits.sequenced (hlaws : RunLaws env) (hsub : SubmissionLaws env) {raw : Bytes}
    {s : NetAddr} {action : Action fw} (hadmits : Admits env fw raw (some s) action)
    (hbundle : framed raw → versionByte raw ≠ some frameVerV8)
    (hlegacy : framed raw → ∀ verify f, txGates env fw raw verify = .ok f →
      f.version ≠ frameVerV1) (bridging : Option Engine) :
    (action.out bridging (some s)).Sequenced := by
  have hclass : ∀ {version}, version ∈ sequencedVersions → versionByte raw = some version →
      byteAt raw 6 ∈ sequencedVersions := by
    intro version hmem hversion
    rw [byteAt_of_versionByte hversion]
    exact hmem
  cases hadmits with
  | @tx frame f verify hframe hgates =>
      have hdecode := txGates_ok hgates
      have hversion : f.version = frameVerV2 := by
        apply (hlaws.dec.decode_version hdecode).resolve_left
        cases hframe with
        | framed hframed hanchor => exact hlegacy hframed verify f hgates
        | bare hframed hbare =>
            obtain ⟨id, _, hreframed⟩ := bareTxGates_ok hsub hbare
            rw [Option.some.inj (hdecode.symm.trans hreframed)]
            exact (by decide : frameVerV2 ≠ frameVerV1)
      simp only [Action.out, hversion, ↓reduceIte]
      refine ⟨rfl, (hlaws.dec.decode_size hdecode hversion).1, ?_, ?_⟩
      · change byteAt frame 6 ∈ _
        rw [hlaws.keys.decode_byte6 hdecode, hversion]
        decide
      · intro sent req hreq
        rcases List.mem_cons.mp hreq with rfl | hcopy
        · rfl
        · obtain ⟨idx, rfl⟩ := eq_of_mem_bridgeCopy hcopy
          rfl
  | block hframed hversion hgates =>
      exact ⟨rfl, (hlaws.dec.decodeBlock_size (blockGates_ok hgates)).1,
        hclass (by decide) hversion, fun _ => teeable_singleton rfl⟩
  | subtreeData hframed hversion hgates =>
      exact ⟨rfl, (hlaws.dec.decodeSubtreeData_size (subtreeGates_ok hgates)).1,
        hclass (by decide) hversion, fun _ => teeable_singleton rfl⟩
  | anchor hanchor =>
      obtain ⟨f, hdecode⟩ := hanchor.decodes
      exact ⟨rfl, hlaws.dec.decodeAnchor_size hdecode, hclass (by decide) hanchor.version,
        fun _ => teeable_singleton rfl⟩
  | @beef frame checkContentID plane bf topics hsubmits hgates =>
      have hdecode := beefGates_ok hgates
      refine ⟨rfl, ?_, ?_, fun _ => teeable_singleton rfl⟩
      · change headerSize ≤ (frame.set 7 _).length
        rw [List.length_set]
        exact (hlaws.dec.decodeBEEF_size hdecode).1
      · change byteAt (frame.set 7 _) 6 ∈ _
        rw [byteAt_set_ne _ _ (by decide), hlaws.seq.decodeBEEF_version hdecode]
        decide
  | relay hframed hversion hgates => exact absurd hversion (hbundle hframed)

theorem hasSeqNum_planDatagram (hlaws : RunLaws env) (plan : FragPlan) (k i : Nat)
    (hashKey seqNum : UInt64) : HasSeqNum (planDatagram env fw plan k i hashKey seqNum) := by
  have hsize : 56 ≤ (env.fragmentBytes (plan.args fw i k hashKey seqNum)).length := by
    rw [hlaws.frag.length]
    exact Nat.le_trans (by decide : 56 ≤ headerSizeV3) (Nat.le_add_right _ _)
  have hversion := hlaws.seq.fragment_version (plan.args fw i k hashKey seqNum)
  rw [planDatagram]
  cases plan.byte7 with
  | none =>
      refine ⟨hsize, ?_⟩
      rw [withByte7, hversion]
      decide
  | some byte =>
      refine ⟨by rwa [withByte7, List.length_set], ?_⟩
      rw [withByte7, byteAt_set_ne _ _ (by decide), hversion]
      decide

theorem Outgoing.Sequenced.frame {o : Outgoing fw} (ho : o.Sequenced) (chains : Chains) :
    HasSeqNum (o.frame env chains) := by
  obtain ⟨flow, hflow⟩ := Option.isSome_iff_exists.mp ho.flow
  rw [Outgoing.frame, hflow]
  constructor
  · rw [stamped_length _ _ _ _ _ ho.size]
    exact Nat.le_trans (by decide) ho.size
  · rw [byteAt_stamped _ _ ho.size _ _ (by decide)]
    exact ho.version

theorem Outgoing.Sequenced.teed_log (hlaws : RunLaws env) {o : Outgoing fw} (ho : o.Sequenced)
    (hreqs : ∀ sent, ∀ req ∈ o.reqs sent, req.raw = sent) (chains : Chains) :
    ∀ issue ∈ o.log env chains, TeedIssue issue := by
  intro issue hissue
  rw [Outgoing.log] at hissue
  cases hsplit : o.split with
  | some plan =>
      rw [hsplit] at hissue
      obtain ⟨req, hreq, rfl⟩ := List.mem_map.mp hissue
      obtain ⟨i, _, rfl⟩ := List.mem_map.mp hreq
      intro own hown
      rw [List.mem_singleton.mp hown]
      exact ⟨rfl, hasSeqNum_planDatagram hlaws plan _ i _ _⟩
  | none =>
      obtain ⟨flow, hflow⟩ := Option.isSome_iff_exists.mp ho.flow
      have hframe : HasSeqNum (o.frame env chains) := ho.frame chains
      rw [hsplit, hflow] at hissue
      by_cases hseq : uint64At o.raw 48 = 0
      · simp only [hseq, ↓reduceIte, List.mem_singleton] at hissue
        subst hissue
        intro req hreq
        rw [hreqs _ req hreq]
        exact ⟨ho.teeable _ req hreq, hframe⟩
      · simp only [hseq, ↓reduceIte] at hissue
        obtain ⟨req, hreq, rfl⟩ := List.mem_map.mp hissue
        -- a number its sender wrote is kept
        have hkept : uint64At (o.frame env chains) 48 ≠ 0 := by
          rw [Outgoing.frame, hflow]
          rw [(relayed_stamped ho.size hseq flow _).2]
          exact hseq
        refine ⟨fun _ => ?_, fun _ => ho.teeable _ req hreq⟩
        rw [hreqs _ req hreq]
        exact ⟨hframe, hkept⟩

/-- What the results on the tee assume of the codecs. -/
structure TeeLaws (env : Env) (decodeBundle : Bytes → Option Bundle) : Prop where
  runs : RunLaws env
  submission : SubmissionLaws env
  bundleVersion : BundleVersion env
  bundleCodec : BundleCodec env decodeBundle

variable {decodeBundle : Bytes → Option Bundle}

theorem EventIssue.teed (hlaws : TeeLaws env decodeBundle) {event : RunEvent} {st : FwState}
    {issue : Issue ChainKey EnqueueReq} (hissue : EventIssue env fw event st issue)
    (hseq : (TeeInput.worker event).Sequenced env fw) : TeedIssue issue := by
  cases hissue with
  | sent hadmits hwaits hissue =>
      obtain ⟨hsrc, hbundle, hlegacy⟩ := hseq
      obtain ⟨s, rfl⟩ := Option.isSome_iff_exists.mp hsrc
      exact (hadmits.sequenced hlaws.runs hlaws.submission hbundle hlegacy _).teed_log hlaws.runs
        (hadmits.reqs_raw st.bridging) _ _ hissue
  | bundle hcoal hbk hbundle =>
      obtain ⟨members, _, seqNum, rfl⟩ := hbundle
      intro req hreq
      obtain ⟨raw, hraw, rfl⟩ := List.mem_map.mp hreq
      have hencode := Option.mem_toList.mp hraw
      refine ⟨rfl, ?_, ?_⟩
      · change 56 ≤ raw.length
        rw [hlaws.bundleCodec.length hencode]
        exact Nat.le_trans (by decide : 56 ≤ bundleHeaderSize) (Nat.le_add_right _ _)
      · change byteAt raw 6 ∈ _
        rw [hlaws.bundleVersion.version hencode]
        decide

/-- The flags of a log are right on counters that do not wrap. -/
theorem rightlyTeed_of_log {chains after : Chains} {log : Log}
    (hdraws : Draws ChainKey.stripe (Carries env) chains log after)
    (hteed : ∀ issue ∈ log, TeedIssue issue)
    (hroom : ∀ key, (lastSeq chains key).toNat + (issuesOn key log).length < 2 ^ 64) :
    ∀ req ∈ outputs log, req.RightlyTeed := by
  intro req hreq
  rcases mem_outputs hreq with hplain | ⟨key, list, hlist, hmem, hissue⟩
  · exact hteed _ hplain
  · obtain ⟨i, hi⟩ := List.mem_iff_getElem?.mp hlist
    obtain ⟨_, hseq⟩ := hdraws.carries_issue hi hmem
    obtain ⟨hteeable, hheader⟩ := hteed _ hissue req hmem
    have hnumber : uint64At req.raw 48 ≠ 0 := by
      intro hzero
      have hvalue := toNat_number (hroom key) (List.getElem?_eq_some_iff.mp hi).1
      rw [show lastSeq chains key + UInt64.ofNat i + 1 = 0 from hseq.symm.trans hzero] at hvalue
      exact absurd hvalue (by simp)
    exact ⟨fun _ => ⟨hheader, hnumber⟩, fun _ => hteeable⟩

end Issues

section Runs

variable {env : Env} {groupText : UInt16 → String} {fw : Forwarder}
variable {decodeBundle : Bytes → Option Bundle}

variable (groupText) in
theorem teeInput_log (hlaws : TeeLaws env decodeBundle) {input : TeeInput}
    (hseq : input.Sequenced env fw) (st : FwState) :
    ∃ log, Queues env st (input.step env groupText fw st) log ∧
      (∀ key, (issuesOn key log).length = input.drawn env fw key st) ∧
      ∀ issue ∈ log, TeedIssue issue := by
  cases input with
  | worker event =>
      obtain ⟨log, hqueues, hdrawn, hissues⟩ := event_log hlaws.runs event st
      exact ⟨log, hqueues, hdrawn, fun issue hissue => (hissues issue hissue).teed hlaws hseq⟩
  | control raw idx port =>
      refine ⟨[.plain (enqueueControl raw ⟨groupAddr fw.mcPrefix fw.mcGroupID idx, port⟩
        (groupText idx))], ⟨.plain (.nil _), ?_⟩, fun _ => rfl, ?_⟩
      · rw [TeeInput.step, forwardControlTo, enqueue_apply]
        rfl
      · intro issue hissue
        rw [List.mem_singleton.mp hissue]
        exact ⟨fun hteeable => absurd hteeable (by simp [enqueueControl]),
          fun hcarries => absurd hcarries hseq⟩

variable (groupText) in
theorem tee_log (hlaws : TeeLaws env decodeBundle) {inputs : List TeeInput}
    (hseq : ∀ input ∈ inputs, input.Sequenced env fw) (st : FwState) :
    ∃ log, Queues env st (teeRun env groupText fw inputs st) log ∧
      (∀ key, (issuesOn key log).length = teeDrawn env groupText fw key inputs st) ∧
      ∀ issue ∈ log, TeedIssue issue := by
  induction inputs generalizing st with
  | nil => exact ⟨[], .of_eq rfl rfl, fun _ => rfl, by simp⟩
  | cons input rest ih =>
      have hrest : ∀ other ∈ rest, other.Sequenced env fw := fun other hother =>
        hseq other (List.mem_cons_of_mem input hother)
      exact Queues.join (teeInput_log groupText hlaws (hseq input List.mem_cons_self) st)
        (ih hrest (input.step env groupText fw st))

/-- In a run in which no legacy frame is forwarded and no bundle relayed, whose control
datagrams carry no SeqNum and whose counters do not wrap, the tee is given exactly the
datagrams with a SeqNum. -/
theorem tee_stamped (hlaws : TeeLaws env decodeBundle) {inputs : List TeeInput}
    (hseq : ∀ input ∈ inputs, input.Sequenced env fw) {st : FwState}
    (hroom : ∀ key, (lastSeq st.chains key).toNat +
      teeDrawn env groupText fw key inputs st < 2 ^ 64) :
    ∃ reqs, (teeRun env groupText fw inputs st).queue = st.queue ++ reqs ∧ TeedExactly reqs := by
  obtain ⟨log, hqueues, hdrawn, hteed⟩ := tee_log groupText hlaws hseq st
  refine ⟨outputs log, hqueues.queue, teedExactly_of_rightly ?_⟩
  apply rightlyTeed_of_log hqueues.draws hteed
  intro key
  rw [hdrawn key]
  exact hroom key

end Runs

section Sample

open Reference

theorem Reference.teeLaws : TeeLaws Reference.env decodeBundle :=
  ⟨runLaws, submissionLaws, bundleVersion, bundleCodec⟩

/-- Two anchors from one source, and an announce between them. -/
def teeInputs : List TeeInput :=
  [.worker .flush,
    .worker (.datagram (numberedAnchor 0 (sampleID 1) (sampleTx 1)) (some (source 1)) 0
      .transaction),
    .control [1] groupSubtreeGroupAnnounce 9001,
    .worker (.datagram (numberedAnchor 0 (sampleID 2) (sampleTx 2)) (some (source 1)) 0
      .transaction)]

theorem teeDrawn_teeInputs (groupText : UInt16 → String) (key : ChainKey) :
    teeDrawn Reference.env groupText forwarder key teeInputs state ≤ 2 := by
  simp only [teeInputs, teeDrawn, TeeInput.drawn,
    drawn_numberedAnchor (rfl : forwarder.txDedup = none), true_and]
  change 0 + _ ≤ 2
  split <;> decide

theorem tee_stamped_sample :
    (∃ reqs, (teeRun Reference.env (fun _ => "announce") forwarder teeInputs state).queue =
        state.queue ++ reqs ∧ TeedExactly reqs) ∧
      (teeRun Reference.env (fun _ => "announce") forwarder teeInputs state).queue.map
        EnqueueReq.teeable = [true, false, true] := by
  have hanchor : ∀ byte : UInt8, TeeInput.Sequenced Reference.env forwarder (.worker (.datagram
      (numberedAnchor 0 (sampleID byte) (sampleTx byte)) (some (source 1)) 0 .transaction)) := by
    intro byte
    have hversion : versionByte (numberedAnchor 0 (sampleID byte) (sampleTx byte)) =
        some frameVerV6 := versionByte_encodeFields _ _
    refine ⟨rfl, fun _ => by rw [hversion]; decide, ?_⟩
    intro _ verify f hgates
    rw [← hashKeyLaws.decode_byte6 (txGates_ok hgates), byteAt_of_versionByte hversion]
    decide
  refine ⟨tee_stamped teeLaws ?_ ?_, by decide +kernel⟩
  · intro input hinput
    simp only [teeInputs, List.mem_cons, List.not_mem_nil, or_false] at hinput
    rcases hinput with rfl | rfl | rfl | rfl
    · trivial
    · exact hanchor 1
    · exact (by decide : ¬ CarriesSeqNum [1])
    · exact hanchor 2
  · intro key
    have hdrawn := teeDrawn_teeInputs (fun _ => "announce") key
    change 0 + _ < _
    omega

def legacyFrame : Bytes :=
  [0xE3, 0xE1, 0xF3, 0xE8, 0, 0, frameVerV1, 0] ++ List.replicate 32 0xAA ++ [0, 0, 0, 1, 0x51]

/-- A legacy frame is forwarded as it came, without a SeqNum, and copied to the tee. -/
theorem legacyFrame_teed :
    ¬ TeedExactly (teeRun Reference.env (fun _ => "announce") forwarder
      [.worker (.datagram legacyFrame (some (source 1)) 0 .transaction)] state).queue := by
  have hqueue : (teeRun Reference.env (fun _ => "announce") forwarder
      [.worker (.datagram legacyFrame (some (source 1)) 0 .transaction)] state).queue.map
        (fun req => (req.raw, req.teeable)) = [(legacyFrame, true)] := by
    decide +kernel
  obtain ⟨req, hreqs, hreq⟩ := List.map_eq_singleton_iff.mp hqueue
  rw [hreqs]
  obtain ⟨hraw, hteeable⟩ := Prod.mk.inj hreq
  intro hexact
  have hsmall : req.raw.length ≤ teeBufSize := by
    rw [hraw]
    decide
  have hgiven := hexact .new _ (.teed hteeable (.pooled rfl hsmall .made) .done)
  have hnone : ¬ CarriesSeqNum req.raw := by
    rw [hraw]
    decide
  rw [List.map_singleton, List.filter_singleton, decide_eq_false hnone] at hgiven
  cases hgiven

end Sample

end ShardProxy
