/-
What a listener sees of a flow.  It watches one group address for one HashKey
and takes a hole in the SeqNums for loss.  The numbers are drawn by the flow of
the active layout, so its group sees them all, also when members wait for
bundles and payloads are split.  A copy for a successor layout carries the same
numbers to groups that share them out by another bit of the TxID.
-/
import ShardProxy.DualEmission
import ShardProxy.Numbering

namespace ShardProxy

open ByteField Dispenser IssueLog

/-- The frame versions a listener tracks SeqNums of. -/
def trackedVersions : List UInt8 :=
  [frameVerV2, frameVerV3, frameVerV8]

/-- The SeqNum a listener of a group and a HashKey reads off a datagram. -/
def heard (group : UDPAddr) (hashKey : UInt64) (req : EnqueueReq) : Option Nat :=
  if byteAt req.raw 6 ∈ trackedVersions ∧ req.dst = group ∧ uint64At req.raw 40 = hashKey then
    some (uint64At req.raw 48).toNat
  else none

/-- The SeqNums such a listener reads, in the order they were queued. -/
def heardNumbers (queue : List EnqueueReq) (group : UDPAddr) (hashKey : UInt64) : List Nat :=
  queue.filterMap (heard group hashKey)

/-- Distinct numbers that fill an interval. -/
structure Contiguous (numbers : List Nat) : Prop where
  distinct : numbers.Nodup
  interval : ∃ first count, ∀ number,
    number ∈ numbers ↔ first ≤ number ∧ number < first + count

theorem Contiguous.range' (first count : Nat) : Contiguous (List.range' first count) where
  distinct := List.nodup_range'
  interval := ⟨first, count, fun number => List.mem_range'_1⟩

def GapFree (queue : List EnqueueReq) : Prop :=
  ∀ group hashKey, Contiguous (heardNumbers queue group hashKey)

section Conditions

variable (env : Env) (fw : Forwarder)

/-- Unstamped transaction input: a V1 frame, a V2 frame without a SeqNum, or a
datagram without framing that is no submission record. -/
def TxInput (raw : Bytes) : Prop :=
  if framed raw then
    versionByte raw = some frameVerV1 ∨ versionByte raw = some frameVerV2 ∧ uint64At raw 48 = 0
  else env.decodeBEEFRecord raw = none

/-- The transaction is heard once, in the group of its flow: it can be a bundle's
member where it waits for one, and a successor layout, where it is published,
has it in the same group or never sees it whole. -/
structure HeardOnce (st : FwState) (f : Frame) : Prop where
  encodable : Eligible env fw f.payload → f.payload.length < 2 ^ 16
  settled : fw.fragments f.payload ∨ ∀ secondary, st.bridging = some secondary →
    secondary.groupIndex f.txID = fw.engine.groupIndex f.txID

/-- Transactions from a source that are each heard once. -/
def KeepsOrder : RunEvent → FwState → Prop
  | .datagram raw src _ _, st => src.isSome ∧ TxInput env raw ∧
      ∀ frame f, TxFrame env fw raw frame → env.decode frame = some f →
        f.version = frameVerV2 → HeardOnce env fw st f
  | _, _ => True

/-- An issue that a listener of its flow hears once, and no other listener. -/
def HeardIssue : Issue ChainKey EnqueueReq → Prop
  | .plain req => byteAt req.raw 6 ∉ trackedVersions
  | .numbered key reqs => ∃ req, reqs = [req] ∧ req.dst = fw.addrFor key.grp ∧
      byteAt req.raw 6 ∈ trackedVersions

/-- Only members that fit wait in the worker's buffer. -/
def SoundBuffer (st : FwState) : Prop :=
  ∀ coal, st.coal = some coal → coal.Sound env fw

end Conditions

section Listener

variable {env : Env} {fw : Forwarder} {log : Log}

theorem heard_of_carries {key : ChainKey} {number : UInt64} {req : EnqueueReq}
    (hdst : req.dst = fw.addrFor key.grp) (hversion : byteAt req.raw 6 ∈ trackedVersions)
    (hcarries : Carries env key number req) :
    heard (fw.addrFor key.grp) (env.hashKey key) req = some number.toNat := by
  rw [heard, if_pos ⟨hversion, hdst, hcarries.1⟩, hcarries.2]

/-- Each listener hears the numbers of one flow or nothing. -/
theorem gapFree_of_log {chains after : Chains}
    (hdraws : Draws ChainKey.stripe (Carries env) chains log after)
    (hheard : ∀ issue ∈ log, HeardIssue fw issue)
    (hroom : ∀ key, (lastSeq chains key).toNat + (issuesOn key log).length < 2 ^ 64)
    (hinj : Set.InjOn env.hashKey { key | 0 < (issuesOn key log).length }) :
    GapFree (outputs log) := by
  intro group hashKey
  rw [heardNumbers]
  cases hsome : (outputs log).filterMap (heard group hashKey) with
  | nil => exact Contiguous.range' 0 0
  | cons number rest =>
      have hused : ∀ key list, .numbered key list ∈ log → 0 < (issuesOn key log).length := by
        intro key list hissue
        apply List.length_pos_of_mem
        exact List.mem_filterMap.mpr ⟨_, hissue, if_pos rfl⟩
      -- one datagram that is heard gives the flow, and with it the group and the HashKey
      obtain ⟨req, hreq, hnumber⟩ := List.mem_filterMap.mp
        (show number ∈ (outputs log).filterMap (heard group hashKey) by
          rw [hsome]; exact List.mem_cons_self)
      rw [heard] at hnumber
      split at hnumber
      · rename_i hwatched
        obtain ⟨hversion, rfl, rfl⟩ := hwatched
        rcases mem_outputs hreq with hplain | ⟨key, list, hlist, hmem, hissue⟩
        · exact absurd hversion (hheard _ hplain)
        · obtain ⟨i, hi⟩ := List.mem_iff_getElem?.mp hlist
          have hcarries : Carries env key _ req := hdraws.carries_issue hi hmem
          obtain ⟨only, rfl, hdst, _⟩ := hheard _ hissue
          obtain rfl := List.mem_singleton.mp hmem
          rw [← hsome, hdst, hcarries.1]
          rw [hdraws.picked key (heard (fw.addrFor key.grp) (env.hashKey key)) ?_ ?_ ?_
            (hroom key)]
          · exact Contiguous.range' _ _
          · intro output hoff
            exact if_neg fun hon => hheard _ hoff hon.1
          · intro reqs number hon hcarried
            obtain ⟨one, rfl, hdst, hversion⟩ := hheard _ hon
            have hone := heard_of_carries hdst hversion
              (hcarried one (List.mem_singleton_self one))
            simp only [List.filterMap_cons, hone, List.filterMap_nil]
          · intro own reqs number hne hon hcarried
            obtain ⟨one, rfl, _, _⟩ := hheard _ hon
            have hnone : heard (fw.addrFor key.grp) (env.hashKey key) one = none := by
              refine if_neg fun hwatched => hne ?_
              apply hinj (hused own _ hon) (hused key _ hissue)
              exact (hcarried one (List.mem_singleton_self one)).1.symm.trans hwatched.2.2
            simp only [List.filterMap_cons, hnone, List.filterMap_nil]
      · cases hnumber

end Listener

section Transactions

variable {env : Env} {fw : Forwarder} {raw : Bytes} {src : Option NetAddr}

/-- Transaction input is dispatched as a transaction, and a V2 frame of it has no
SeqNum. -/
theorem TxInput.admits (hlaws : RunLaws env) (hsub : SubmissionLaws env)
    (hinput : TxInput env raw) {action : Action fw} (hadmits : Admits env fw raw src action) :
    ∃ frame f, action = .tx frame f ∧ TxFrame env fw raw frame ∧ env.decode frame = some f ∧
      (f.version = frameVerV2 → uint64At frame 48 = 0) := by
  have hclass : ∀ version, framed raw → versionByte raw = some version →
      version = frameVerV1 ∨ version = frameVerV2 := by
    intro version hframed hversion
    rw [TxInput, if_pos hframed, hversion] at hinput
    rcases hinput with hlegacy | ⟨hcurrent, _⟩
    · exact Or.inl (Option.some.inj hlegacy)
    · exact Or.inr (Option.some.inj hcurrent)
  cases hadmits with
  | @tx frame f verify hframe hgates =>
      have hdecode := txGates_ok hgates
      refine ⟨frame, f, rfl, hframe, hdecode, ?_⟩
      intro hversion
      cases hframe with
      | framed hframed hanchor =>
          rw [TxInput, if_pos hframed] at hinput
          rcases hinput with hlegacy | ⟨_, hzero⟩
          · have hbyte := (hlaws.keys.decode_byte6 hdecode).trans hversion
            rw [byteAt_of_versionByte hlegacy] at hbyte
            exact absurd hbyte (by decide)
          · exact hzero
      | bare hframed hbare =>
          obtain ⟨id, _, hreframed⟩ := bareTxGates_ok hsub hbare
          obtain rfl : f = _ := Option.some.inj (hdecode.symm.trans hreframed)
          exact (hlaws.seq.decode_seqNum hdecode hversion).symm
  | block hframed hversion hgates => exact absurd (hclass _ hframed hversion) (by decide)
  | subtreeData hframed hversion hgates => exact absurd (hclass _ hframed hversion) (by decide)
  | anchor hanchor => exact absurd (hclass _ hanchor.framed hanchor.version) (by decide)
  | beef hsubmits hgates =>
      cases hsubmits with
      | framed hframed hversion => exact absurd (hclass _ hframed hversion) (by decide)
      | record hframed hprepared =>
          rw [TxInput, if_neg hframed] at hinput
          rw [prepareBEEF, hinput] at hprepared
          split at hprepared <;> cases hprepared
  | relay hframed hversion hgates => exact absurd (hclass _ hframed hversion) (by decide)

theorem bridgeCopy_of_settled {st : FwState} {f : Frame} (sent : Bytes)
    (hsettled : ∀ secondary, st.bridging = some secondary →
      secondary.groupIndex f.txID = fw.engine.groupIndex f.txID) :
    bridgeCopy fw st.bridging f (fw.engine.groupIndex f.txID) sent = [] := by
  cases hbridging : st.bridging with
  | none => rfl
  | some secondary => simp [bridgeCopy, hsettled secondary hbridging]

/-- A transaction that is heard once makes issues that are. -/
theorem heardIssue_tx (hlaws : RunLaws env) {st : FwState} {s : NetAddr} {frame : Bytes}
    {f : Frame} (hdecode : env.decode frame = some f)
    (hzero : f.version = frameVerV2 → uint64At frame 48 = 0)
    (honce : f.version = frameVerV2 → HeardOnce env fw st f) :
    ∀ issue ∈ ((Action.tx frame f : Action fw).out st.bridging (some s)).log env st.chains,
      HeardIssue fw issue := by
  intro issue hissue
  have hbyte := hlaws.keys.decode_byte6 hdecode
  by_cases hversion : f.version = frameVerV2
  · rw [Action.out, if_pos hversion] at hissue
    have hsettled := (honce hversion).settled
    by_cases hsplit : fw.fragments f.payload
    · simp only [Outgoing.log, txOut, splitOf, hsplit, ↓reduceIte, Option.map_some] at hissue
      obtain ⟨req, hreq, rfl⟩ := List.mem_map.mp hissue
      obtain ⟨i, _, rfl⟩ := List.mem_map.mp hreq
      refine ⟨_, rfl, rfl, ?_⟩
      change byteAt (env.fragmentBytes _) 6 ∈ _
      rw [hlaws.seq.fragment_version]
      decide
    · have hcopies := fun sent => bridgeCopy_of_settled sent (hsettled.resolve_left hsplit)
      simp only [Outgoing.log, txOut, splitOf, hsplit, ↓reduceIte, Option.map_some,
        hzero hversion, hcopies, List.mem_singleton] at hissue
      subst hissue
      refine ⟨_, rfl, rfl, ?_⟩
      change byteAt (stamped env fw frame _ _) 6 ∈ _
      rw [byteAt_stamped _ _ (hlaws.dec.decode_size hdecode hversion).1 _ _ (by decide), hbyte,
        hversion]
      decide
  · rw [Action.out, if_neg hversion] at hissue
    obtain ⟨req, hreq, rfl⟩ := List.mem_map.mp hissue
    have hlegacy : f.version = frameVerV1 :=
      (hlaws.dec.decode_version hdecode).resolve_right hversion
    have hraw : req.raw = frame := by
      rcases List.mem_cons.mp hreq with rfl | hcopy
      · rfl
      · exact raw_of_mem_bridgeCopy hcopy
    change byteAt req.raw 6 ∉ _
    rw [hraw, hbyte, hlegacy]
    decide

end Transactions

section Runs

variable {env : Env} {fw : Forwarder}

/-- No datagram publishes or clears a successor layout. -/
theorem bridging_datagram (hfrag : FragmentLaws env) (raw : Bytes) (src : Option NetAddr)
    (now : Time) (cls : IngressClass) (st : FwState) :
    (RunEvent.step env fw (.datagram raw src now cls) st).bridging = st.bridging := by
  have hstep : DispatchStep env fw raw src st
      (RunEvent.step env fw (.datagram raw src now cls) st) :=
    dispatchClass_step hfrag raw src now cls st
  generalize RunEvent.step env fw (.datagram raw src now cls) st = after at hstep
  cases hstep with
  | dropped hready => exact hready.bridging
  | waiting _ _ _ hready => exact hready.bridging
  | sent _ _ _ hready => exact hready.bridging

/-- The buffer stays sound along transactions that are heard once. -/
theorem soundBuffer_step (hlaws : RunLaws env) {event : RunEvent} {st : FwState}
    (hsound : SoundBuffer env fw st) (hkeeps : KeepsOrder env fw event st) :
    SoundBuffer env fw (event.step env fw st) := by
  cases event with
  | bridge engine => exact hsound
  | flush =>
      cases hcoal : st.coal with
      | none =>
          rw [RunEvent.step_flush_none env fw hcoal]
          exact hsound
      | some coal =>
          rw [RunEvent.step_flush_some env fw hcoal]
          intro after hafter
          obtain rfl := Option.some.inj hafter
          exact (hsound coal hcoal).reset
  | datagram raw src now cls =>
      have hstep : DispatchStep env fw raw src st
          (RunEvent.step env fw (.datagram raw src now cls) st) :=
        dispatchClass_step hlaws.frag raw src now cls st
      generalize RunEvent.step env fw (.datagram raw src now cls) st = after at hstep
      cases hstep with
      | dropped hready => exact fun coal hcoal => hsound coal (hready.coal ▸ hcoal)
      | sent hadmits hwaits hfit hready =>
          exact fun coal hcoal => hsound coal (hready.coal ▸ hcoal)
      | @waiting frame f s before hsrc hadmits hwaits hready =>
          intro after hafter
          obtain ⟨coal, hcoal, rfl⟩ := Option.map_eq_some_iff.mp hafter
          cases hadmits with
          | tx hframe hgates =>
              have honce := hkeeps.2.2 frame f hframe (txGates_ok hgates) hwaits.2.1
              have hbudget := hwaits.2.2.2.2.2.2
              have hgroup := shardIndex_lt fw.engine (fw.engine.groupIndex_lt f.txID)
              exact (hsound coal (hready.coal ▸ hcoal)).add (Nat.lt_trans hgroup (by decide))
                ⟨hbudget, honce.encodable ⟨hwaits.2.2.1, hbudget⟩⟩

theorem EventIssue.heardIssue (hlaws : RunLaws env) (hsub : SubmissionLaws env)
    (hversion : BundleVersion env) {event : RunEvent} {st : FwState}
    {issue : Issue ChainKey EnqueueReq} (hissue : EventIssue env fw event st issue)
    (hsound : SoundBuffer env fw st) (hkeeps : KeepsOrder env fw event st) :
    HeardIssue fw issue := by
  cases hissue with
  | @sent raw src now cls _ action _ hadmits hwaits hissue =>
      obtain ⟨hsrc, hinput, honce⟩ := hkeeps
      obtain ⟨s, rfl⟩ := Option.isSome_iff_exists.mp hsrc
      obtain ⟨frame, f, rfl, hframe, hdecode, hzero⟩ := hinput.admits hlaws hsub hadmits
      exact heardIssue_tx hlaws hdecode hzero (honce frame f hframe hdecode) issue hissue
  | @bundle _ coal bk _ hcoal hbk hbundle =>
      obtain ⟨members, hmembers, seqNum, rfl⟩ := hbundle
      have hpack := (hsound coal hcoal).packable hbk hmembers
      have hcount : (bundleOf fw bk members (env.hashKey bk.flow) seqNum).members.length ≤
          bundleMaxMembers := Nat.le_trans hpack.count (memberCap_le fw)
      obtain ⟨datagram, hencode⟩ := hlaws.bundles.encode _ hcount hpack.short
      rw [hencode]
      refine ⟨_, rfl, rfl, ?_⟩
      change byteAt datagram 6 ∈ _
      rw [hversion.version hencode]
      decide

/-- A run of unstamped transactions that are each heard once, with successor
layouts published and cleared on the way, leaves no hole for any listener. -/
theorem listeners_gapFree (hlaws : RunLaws env) (hsub : SubmissionLaws env)
    (hversion : BundleVersion env) {events : List RunEvent} {st : FwState}
    (hempty : st.queue = []) (hbuffer : SoundBuffer env fw st)
    (hkeeps : Along env fw (KeepsOrder env fw) events st)
    (hroom : ∀ key, (lastSeq st.chains key).toNat + drawn env fw key events st < 2 ^ 64)
    (hinj : Set.InjOn env.hashKey { key | 0 < drawn env fw key events st }) :
    GapFree (runEvents env fw events st).queue := by
  obtain ⟨log, hqueues, hdrawn, hheard⟩ := run_log hlaws (SoundBuffer env fw) (HeardIssue fw)
    (fun _ _ hsound hcond => soundBuffer_step hlaws hsound hcond)
    (fun _ _ _ hsound hcond hissue => hissue.heardIssue hlaws hsub hversion hsound hcond)
    hbuffer hkeeps
  rw [hqueues.queue, hempty, List.nil_append]
  apply gapFree_of_log hqueues.draws hheard
  · intro key
    rw [hdrawn key]
    exact hroom key
  · simp only [hdrawn]
    exact hinj

end Runs

section Sample

open Reference

/-- A TxID of group 1 under eight shard bits, and of group 2 or 3 under nine. -/
def shardID (second : UInt8) : Hash32 :=
  ⟨[1, second] ++ List.replicate 30 0, rfl⟩

def frameEvent (second : UInt8) : RunEvent :=
  .datagram (sampleFrame (shardID second) (sampleTx second)) (some (source 1)) 0 .transaction

/-- The flow of all those frames. -/
def shardFlow : ChainKey :=
  ⟨addrToIPv6 (source 1), 1, zeroHash⟩

theorem chains_frameStep (id : Hash32) {tx : Bytes} (hlength : tx.length < 2 ^ 32)
    (src : NetAddr) (st : FwState) :
    (RunEvent.step Reference.env forwarder
        (.datagram (sampleFrame id tx) (some src) 0 .transaction) st).chains =
      advance st.chains (txFlow forwarder ⟨frameVerV2, id, 0, zeroHash, tx⟩ src) 1 := by
  have hgates : txGates Reference.env forwarder (sampleFrame id tx) forwarder.verifyPayloadHash =
      .ok ⟨frameVerV2, id, 0, zeroHash, tx⟩ :=
    txGates_of_unstamped (decode_sampleFrame id hlength) rfl rfl nofun nofun nofun
  obtain ⟨before, hready, hrun⟩ : ∃ before, Ready st before ∧
      processFrame Reference.env forwarder (sampleFrame id tx) (some src) st = _ :=
    process_of_unclaimed hgates nofun
  have hseq : uint64At (sampleFrame id tx) 48 = 0 := encodeFields_seqNum _ _
  have hsplit : ¬ forwarder.fragments tx := fun hsplit => absurd hsplit.1 (by decide)
  have hwaits : ¬ Waits Reference.env forwarder before ⟨frameVerV2, id, 0, zeroHash, tx⟩
      (some src) := fun hwaits => absurd hwaits.2.2.2.1 (by decide)
  have hplan : (txOut forwarder before.bridging (sampleFrame id tx)
      ⟨frameVerV2, id, 0, zeroHash, tx⟩ (some src)).split = none := by
    simp only [txOut, splitOf, hsplit, ↓reduceIte]
  have hfit : ¬ (txOut forwarder before.bridging (sampleFrame id tx)
      ⟨frameVerV2, id, 0, zeroHash, tx⟩ (some src)).Overflows := by
    rintro ⟨plan, hfound, _⟩
    cases hplan.symm.trans hfound
  have hdispatch : dispatchClass Reference.env forwarder (sampleFrame id tx) (some src) 0
      .transaction = _ := dispatch_sampleFrame forwarder id tx src 0
  rw [RunEvent.step, hdispatch, hrun, emitTx_of_not_waits _ _ rfl _ hwaits,
    Outgoing.send_apply _ fragmentLaws _ hfit]
  simp only [Outgoing.chainsAfter, hplan, hready.chains]
  exact if_pos hseq

theorem chains_frameEvent {second : UInt8}
    (hgroup : forwarder.engine.groupIndex (shardID second) = 1) (st : FwState) :
    ((frameEvent second).step Reference.env forwarder st).chains =
      advance st.chains shardFlow 1 := by
  have hlength : (sampleTx second).length < 2 ^ 32 := by
    rw [length_sampleTx]
    decide
  rw [frameEvent, chains_frameStep (shardID second) hlength (source 1) st, txFlow, hgroup]
  rfl

/-- Frames of one flow, three of them while a successor layout is published. -/
def bridgedEvents (successor : Engine) : List RunEvent :=
  [frameEvent 0, .bridge (some successor), frameEvent 0, frameEvent 128, frameEvent 0,
    .bridge none]

theorem drawn_bridgedEvents (successor : Engine) (key : ChainKey) :
    drawn Reference.env forwarder key (bridgedEvents successor) state =
      if key = shardFlow then 4 else 0 := by
  have hfirst : ∀ st, RunEvent.drawn Reference.env forwarder key (frameEvent 0) st =
      if key = shardFlow then 1 else 0 := fun st =>
    drawn_of_advance (chains_frameEvent (by decide) st) key
  have hsecond : ∀ st, RunEvent.drawn Reference.env forwarder key (frameEvent 128) st =
      if key = shardFlow then 1 else 0 := fun st =>
    drawn_of_advance (chains_frameEvent (by decide) st) key
  have hbridge : ∀ engine st, RunEvent.drawn Reference.env forwarder key (.bridge engine) st =
      0 := by
    intro engine st
    simp only [RunEvent.drawn, RunEvent.step, UInt64.sub_self]
    rfl
  simp only [bridgedEvents, drawn, hbridge, hfirst, hsecond]
  by_cases hkey : key = shardFlow <;> simp only [hkey, ↓reduceIte]

/-- The flows such a run draws on are told apart by their HashKeys, for there is
one. -/
theorem injOn_bridgedEvents (successor : Engine) :
    Set.InjOn Reference.env.hashKey
      { key | 0 < drawn Reference.env forwarder key (bridgedEvents successor) state } := by
  have hused : ∀ key, 0 < drawn Reference.env forwarder key (bridgedEvents successor) state →
      key = shardFlow := by
    intro key hdrawn
    rw [drawn_bridgedEvents] at hdrawn
    by_contra hother
    simp [hother] at hdrawn
  intro left hleft right hright _
  rw [hused left hleft, hused right hright]

theorem keepsOrder_frameEvent (second : UInt8) {st : FwState}
    (hsettled : ∀ secondary, st.bridging = some secondary →
      secondary.groupIndex = forwarder.engine.groupIndex) :
    KeepsOrder Reference.env forwarder (frameEvent second) st := by
  have hframed : framed (sampleFrame (shardID second) (sampleTx second)) := framed_encodeFields _ _
  have hinput : TxInput Reference.env (sampleFrame (shardID second) (sampleTx second)) := by
    rw [TxInput, if_pos hframed]
    exact Or.inr ⟨versionByte_encodeFields _ _, encodeFields_seqNum _ _⟩
  refine ⟨rfl, hinput, ?_⟩
  intro frame f _ _ _
  refine ⟨?_, Or.inr fun secondary hbridging => ?_⟩
  · rintro ⟨_, hbudget⟩
    have hnone : forwarder.coalesceBudget = 0 := rfl
    rw [hnone, bundleHeaderSize] at hbudget
    omega
  · rw [hsettled secondary hbridging]

/-- A successor of the same width leaves no hole. -/
theorem listeners_gapFree_sample :
    GapFree (runEvents Reference.env forwarder (bridgedEvents forwarder.engine) state).queue ∧
      (runEvents Reference.env forwarder (bridgedEvents forwarder.engine) state).queue.length =
        4 := by
  refine ⟨listeners_gapFree runLaws submissionLaws bundleVersion rfl nofun ?_ ?_
    (injOn_bridgedEvents _), by decide +kernel⟩
  · have hkept : ∀ second st, ((frameEvent second).step Reference.env forwarder st).bridging =
        st.bridging := fun _ st => bridging_datagram fragmentLaws _ _ _ _ st
    have hsame : ∀ {st : FwState} second, st.bridging = some forwarder.engine →
        KeepsOrder Reference.env forwarder (frameEvent second) st := by
      intro st second hbridging
      apply keepsOrder_frameEvent
      intro secondary hsome
      rw [← Option.some.inj (hbridging.symm.trans hsome)]
    refine ⟨keepsOrder_frameEvent 0 nofun, trivial, hsame 0 rfl, hsame 128 ?_, hsame 0 ?_,
      trivial, trivial⟩
    · rw [hkept]
      rfl
    · rw [hkept, hkept]
      rfl
  · intro key
    have hfresh : lastSeq state.chains key = 0 := rfl
    rw [drawn_bridgedEvents, hfresh]
    split <;> decide

/-- A successor with one shard bit more: its group 2 hears SeqNums 2 and 4 of the
flow, and the proxy sent 3 elsewhere. -/
theorem bridgedFrames_leave_gap :
    Set.InjOn Reference.env.hashKey { key | 0 < drawn Reference.env forwarder key
        (bridgedEvents (engine 9 (by decide))) state } ∧
      ¬ GapFree (runEvents Reference.env forwarder
        (bridgedEvents (engine 9 (by decide))) state).queue := by
  have hheard : heardNumbers (runEvents Reference.env forwarder
      (bridgedEvents (engine 9 (by decide))) state).queue (forwarder.addrFor 2)
        (Reference.env.hashKey shardFlow) = [2, 4] := by
    decide +kernel
  refine ⟨injOn_bridgedEvents _, ?_⟩
  intro hgapFree
  obtain ⟨_, first, count, hinterval⟩ :=
    hgapFree (forwarder.addrFor 2) (Reference.env.hashKey shardFlow)
  rw [hheard] at hinterval
  have hlow := (hinterval 2).mp (by decide)
  have hhigh := (hinterval 4).mp (by decide)
  have hhole : 3 ∈ [2, 4] := (hinterval 3).mpr (by omega)
  exact absurd hhole (by decide)

end Sample

end ShardProxy
