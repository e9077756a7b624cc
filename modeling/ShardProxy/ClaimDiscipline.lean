/-
The dedup claim and the emission it stands for.  Every entry point runs its
checks, claims, and then sends; a copy that was claimed and not sent would
suppress all later copies.  Here each entry point is described by what it would
claim and send, and the one way to lose an object after its claim is found.
-/
import ShardProxy.Fragments

namespace ShardProxy

open ByteField Chunks Dispenser

/-- The entry points that claim. -/
inductive Entry where
  | process (raw : Bytes)
  | bareTx (tx : Bytes)
  | block (raw : Bytes)
  | anchor (raw : Bytes)
  | subtreeData (raw : Bytes)
  | beef (raw : Bytes)
  | dispatchBEEF (p : PreparedBEEF)
  | admitBEEF (p : PreparedBEEF)

/-- An input past its checks: the store and key it claims, the identifier, frame
and payload it sends, and whether its class may be split. -/
structure Candidate where
  dedup : Option DedupRef
  key : Hash32
  id : Hash32
  raw : Bytes
  payload : Bytes
  splits : Bool

/-- The stores after a claim was won. -/
def claimedStores (ref : DedupRef) (key : Hash32) (stores : Nat → Finset (String × Hash32)) :
    Nat → Finset (String × Hash32) :=
  Function.update stores ref.store (insert (ref.keySpace, key) (stores ref.store))

theorem claimIngressIn_of_mem {ref : DedupRef} {key : Hash32} {st : FwState}
    (hclaimed : (ref.keySpace, key) ∈ st.stores ref.store) (frameType : String) :
    claimIngressIn (some ref) key frameType st = (.error (.deduped frameType), st) :=
  if_pos hclaimed

theorem claimIngressIn_of_not_mem {ref : DedupRef} {key : Hash32} {st : FwState}
    (hfree : (ref.keySpace, key) ∉ st.stores ref.store) (frameType : String) :
    claimIngressIn (some ref) key frameType st =
      (.ok (), { st with stores := claimedStores ref key st.stores }) :=
  if_neg hfree

theorem mem_claimedStores {ref : DedupRef} {key : Hash32} {store : Nat}
    {stores : Nat → Finset (String × Hash32)} {entry : String × Hash32} :
    entry ∈ claimedStores ref key stores store ↔
      entry ∈ stores store ∨ (ref.store = store ∧ entry = (ref.keySpace, key)) := by
  rw [claimedStores]
  by_cases hstore : store = ref.store
  · subst hstore
    rw [Function.update_self, Finset.mem_insert, or_comm]
    simp
  · rw [Function.update_of_ne hstore]
    simp [Ne.symm hstore]

theorem claimedStores_ne {ref : DedupRef} {key : Hash32}
    {stores : Nat → Finset (String × Hash32)} (hfree : (ref.keySpace, key) ∉ stores ref.store) :
    claimedStores ref key stores ≠ stores := by
  intro hsame
  have hstore := congrFun hsame ref.store
  rw [claimedStores, Function.update_self] at hstore
  exact hfree (hstore ▸ Finset.mem_insert_self _ _)

section Candidates

variable (env : Env) (fw : Forwarder)

/-- The candidate of a BEEF frame that conforms, is within the door's budgets,
and names its own payload where that is checked. -/
def beefCandidate (raw : Bytes) (src : Option NetAddr) (now : Time) (checkContentID : Bool)
    (st : FwState) : Option Candidate :=
  match beefGates env fw raw src with
  | .error _ => none
  | .ok (_, bf, topics) =>
      let (bf, raw) := setDeliverCount fw bf raw src topics
      match (st.beefLimit.allow env src raw.length now).1,
          contentGate env bf src checkContentID with
      | .allow, .ok () =>
          some ⟨fw.beefDedup.or fw.txDedup, beefClaimKey env bf.contentID bf.topicID,
            bf.contentID, raw, bf.payload, true⟩
      | _, _ => none

def txCandidate (raw : Bytes) (verify : Bool) : Option Candidate :=
  match txGates env fw raw verify with
  | .error _ => none
  | .ok f => some ⟨fw.txDedup, f.txID, f.txID, raw, f.payload, true⟩

/-- What an entry point goes on to claim and send. -/
def Entry.candidate (src : Option NetAddr) (now : Time) (st : FwState) :
    Entry → Option Candidate
  | .process raw => txCandidate env fw raw fw.verifyPayloadHash
  | .bareTx tx =>
      match bareTxGates env fw tx with
      | .error _ => none
      | .ok framed => txCandidate env fw framed false
  | .block raw =>
      match blockGates env fw raw with
      | .error _ => none
      | .ok bf => some ⟨fw.txDedup, bf.contentID, bf.contentID, raw, bf.payload, true⟩
  | .anchor raw =>
      match anchorGates env raw with
      | .error _ => none
      | .ok f => some ⟨fw.txDedup, f.txID, f.txID, raw, f.payload, false⟩
  | .subtreeData raw =>
      match subtreeGates env fw raw with
      | .error _ => none
      | .ok sf => some ⟨fw.txDedup, sf.subtreeID, sf.subtreeID, raw, sf.payload, true⟩
  | .beef raw => beefCandidate env fw raw src now true st
  | .dispatchBEEF p => p.frame.bind fun raw => beefCandidate env fw raw src now false st
  | .admitBEEF p => p.frame.bind fun raw => beefCandidate env fw raw src now false st

def Entry.run (src : Option NetAddr) (now : Time) : Entry → Fw Unit
  | .process raw => processFrame env fw raw src
  | .bareTx tx => dispatchBareTx env fw tx src
  | .block raw => processBlock env fw raw src
  | .anchor raw => processAnchor env fw raw src
  | .subtreeData raw => processSubtreeData env fw raw src
  | .beef raw => processBEEFFrame env fw raw src now
  | .dispatchBEEF p => ShardProxy.dispatchBEEF env fw p src now
  | .admitBEEF p => do
      let _ ← ShardProxy.admitBEEF env fw p src now
      pure ()

/-- Not a legacy V1 frame, which is never claimed. -/
def Entry.NotLegacy : Entry → Prop
  | .process raw => ∀ f, env.decode raw = some f → f.version ≠ frameVerV1
  | _ => True

/-- A drop left the claims, the queue and the buffer alone. -/
structure Kept (st after : FwState) : Prop where
  stores : after.stores = st.stores
  queue : after.queue = st.queue
  coal : after.coal = st.coal

/-- An object was sent whole, in all its fragments, or as a member to bundle. -/
inductive Sent (raw : Bytes) (id : Hash32) (payload : Bytes) (st after : FwState) : Prop where
  | whole {reqs : List EnqueueReq} (hqueue : after.queue = st.queue ++ reqs)
      (hsome : reqs ≠ []) (hreqs : ∀ req ∈ reqs, SameFrame raw req.raw)
  | fragments {reqs : List EnqueueReq} {pieces : List FragmentFrame} {whole : Reassembled}
      {flow : ChainKey} {last : UInt64} (hqueue : after.queue = st.queue ++ reqs)
      (hpieces : FragmentsOf env (fw.fragDataSize + ipv6UDPOverhead) fw.fragDataSize whole
        flow last reqs pieces)
      (hid : whole.id = id) (hpayload : whole.payload = payload)
  | member {coal : CoalBuffer} {flow : ChainKey} (hcoal : st.coal = some coal)
      (hadded : after.coal = some (coal.add flow ⟨id, payload⟩))

/-- A candidate was emitted; for `AdmitBEEF` a returned admission stands for it. -/
def Emitted (entry : Entry) (src : Option NetAddr) (now : Time) (c : Candidate)
    (st after : FwState) : Prop :=
  Sent env fw c.raw c.id c.payload st after ∨
    ∃ p a, entry = .admitBEEF p ∧ ShardProxy.admitBEEF env fw p src now st = (.ok a, after)

/-- The candidate takes more fragments than their count can say. -/
def Candidate.Overflows (c : Candidate) (src : Option NetAddr) : Prop :=
  src.isSome ∧ c.splits ∧ fw.fragments c.payload ∧ 65535 < fw.fragTotal c.payload

/-- A claim is taken if and only if the object is emitted: the input is dropped
and leaves no trace, or its claim is won and all of it is emitted. -/
def ClaimedIffEmitted (entry : Entry) (src : Option NetAddr) (now : Time) (st : FwState) :
    Prop :=
  (∃ drop, (entry.run env fw src now st).1 = .error drop ∧
    Kept st (entry.run env fw src now st).2) ∨
  ((entry.run env fw src now st).1 = .ok () ∧
    ∃ c ref, entry.candidate env fw src now st = some c ∧ c.dedup = some ref ∧
      (ref.keySpace, c.key) ∉ st.stores ref.store ∧
      (entry.run env fw src now st).2.stores = claimedStores ref c.key st.stores ∧
      Emitted env fw entry src now c st (entry.run env fw src now st).2)

/-- The input passes its checks, nobody has claimed it, and it comes from a source
with a payload of more fragments than their count can say. -/
def BurnsClaim (entry : Entry) (src : Option NetAddr) (now : Time) (st : FwState) : Prop :=
  ∃ c ref, entry.candidate env fw src now st = some c ∧ c.dedup = some ref ∧
    (ref.keySpace, c.key) ∉ st.stores ref.store ∧ c.Overflows fw src

end Candidates

section Sending

variable {env : Env} {fw : Forwarder}

/-- An object that fits is sent, and one that does not is dropped. -/
theorem Outgoing.send_cases (hfrag : FragmentLaws env) (o : Outgoing fw) (id : Hash32)
    (payload : Bytes) (hsize : headerSize ≤ o.raw.length)
    (hreqs : ∀ raw, o.reqs raw ≠ [] ∧ ∀ req ∈ o.reqs raw, req.raw = raw)
    (hsplit : ∀ plan, o.split = some plan →
      plan.payload.length < 2 ^ 32 ∧ plan.id = id ∧ plan.payload = payload)
    (st : FwState) :
    (o.Overflows ∧ o.send env st = (.error (.packet .fragOverflow), st)) ∨
      (¬ o.Overflows ∧ ∃ after, o.send env st = (.ok (), after) ∧
        after.stores = st.stores ∧ Sent env fw o.raw id payload st after) := by
  by_cases hover : o.Overflows
  · exact Or.inl ⟨hover, o.send_overflow hover st⟩
  · refine Or.inr ⟨hover, _, o.send_apply hfrag st hover, rfl, ?_⟩
    cases hplan : o.split with
    | some plan =>
        obtain ⟨hlength, hid, hpayload⟩ := hsplit plan hplan
        have hmax : fw.fragTotal plan.payload ≤ 65535 :=
          Nat.le_of_not_lt fun hlarge => hover ⟨plan, hplan, hlarge⟩
        refine .fragments ?_ (plan.fragmentsOf hfrag (Int.le_refl _) (o.split_fragments hplan)
          hmax hlength st.chains) hid hpayload
        rw [Outgoing.requests, hplan]
    | none =>
        refine .whole rfl ?_ ?_
        · rw [Outgoing.requests, hplan]
          exact (hreqs _).1
        · intro req hreq
          rw [Outgoing.requests, hplan] at hreq
          rw [(hreqs _).2 req hreq]
          exact o.sameFrame hsize st.chains

/-- The group or control index a frame of a class is numbered under. -/
def Splittable.idx (fw : Forwarder) : Splittable → UInt32
  | .tx _ f => fw.engine.groupIndex f.txID
  | .block _ bf => blockCtrlIdx bf
  | .subtreeData _ _ => groupSubtreeDataAnnounce.toUInt32
  | .beef _ _ _ groupIdx => groupIdx

def Splittable.objectID : Splittable → Hash32
  | .tx _ f => f.txID
  | .block _ bf => bf.contentID
  | .subtreeData _ sf => sf.subtreeID
  | .beef _ bf _ _ => bf.contentID

theorem Splittable.out_split (w : Splittable) (bridging : Option Engine)
    (src : Option NetAddr) :
    (w.out fw bridging src).split =
      splitOf fw w.payload src fun s => w.plan fw (addrToIPv6 s) (w.idx fw) := by
  cases w <;> rfl

theorem Splittable.plan_objectID (w : Splittable) (ip : IPv6) (idx : UInt32) :
    (w.plan fw ip idx).id = w.objectID := by
  cases w <;> rfl

theorem Splittable.out_overflows_iff (w : Splittable) (bridging : Option Engine)
    (src : Option NetAddr) :
    (w.out fw bridging src).Overflows ↔
      src.isSome ∧ fw.fragments w.payload ∧ 65535 < fw.fragTotal w.payload := by
  rw [Outgoing.Overflows, w.out_split, splitOf]
  constructor
  · rintro ⟨plan, hplan, hover⟩
    split at hplan
    · rename_i hfragments
      obtain ⟨s, hs, rfl⟩ := Option.map_eq_some_iff.mp hplan
      rw [w.plan_payload] at hover
      exact ⟨Option.isSome_of_eq_some hs, hfragments, hover⟩
    · cases hplan
  · rintro ⟨hsrc, hfragments, hover⟩
    obtain ⟨s, rfl⟩ := Option.isSome_iff_exists.mp hsrc
    refine ⟨_, by rw [if_pos hfragments, Option.map_some], ?_⟩
    rw [w.plan_payload]
    exact hover

/-- A decoded frame of a splittable class is sent after its claim unless it
takes too many fragments. -/
theorem Splittable.emit_cases (hdec : DecodeLaws env) (hfrag : FragmentLaws env)
    {w : Splittable} (hdecoded : w.Decoded env) (src : Option NetAddr) (st : FwState) :
    (src.isSome ∧ fw.fragments w.payload ∧ 65535 < fw.fragTotal w.payload) ∧
        w.emit env fw src st = (.error (.packet .fragOverflow), st) ∨
      ¬ (src.isSome ∧ fw.fragments w.payload ∧ 65535 < fw.fragTotal w.payload) ∧
        ∃ after, w.emit env fw src st = (.ok (), after) ∧ after.stores = st.stores ∧
          Sent env fw w.raw w.objectID w.payload st after := by
  obtain ⟨hsize, hlength⟩ := decoded_size hdec hdecoded
  by_cases hwaiting : w.Waiting env fw st src
  · obtain ⟨raw, f, sender, coal, rfl, rfl, hcoal, hsmall, hemit⟩ := waiting_cases hwaiting
    refine Or.inr ⟨fun hover => hsmall hover.2.1, _, hemit, rfl, .member hcoal rfl⟩
  · have hsplit : ∀ plan, (w.out fw st.bridging src).split = some plan →
        plan.payload.length < 2 ^ 32 ∧ plan.id = w.objectID ∧ plan.payload = w.payload := by
      intro plan hplan
      rw [w.out_split, splitOf] at hplan
      split at hplan
      · obtain ⟨s, _, rfl⟩ := Option.map_eq_some_iff.mp hplan
        rw [w.plan_payload, w.plan_objectID]
        exact ⟨hlength, rfl, rfl⟩
      · cases hplan
    have hcases := (w.out fw st.bridging src).send_cases hfrag w.objectID w.payload
      (by rw [out_raw]; exact hsize) (w.out_reqs st.bridging src) hsplit st
    rw [w.out_overflows_iff, ← emit_eq_send hdecoded hwaiting, out_raw] at hcases
    exact hcases

end Sending

section Outcomes

/-- What an entry point did with its candidate. -/
inductive Outcome (env : Env) (fw : Forwarder) (entry : Entry) (src : Option NetAddr)
    (now : Time) (st : FwState) : Option Candidate → Except Drop Unit × FwState → Prop where
  | refused {drop : Drop} {after : FwState} (hkept : Kept st after) :
      Outcome env fw entry src now st none (.error drop, after)
  | duplicate {c : Candidate} {ref : DedupRef} {frameType : String} {after : FwState}
      (hdedup : c.dedup = some ref) (hclaimed : (ref.keySpace, c.key) ∈ st.stores ref.store)
      (hkept : Kept st after) :
      Outcome env fw entry src now st (some c) (.error (.deduped frameType), after)
  | burnt {c : Candidate} {ref : DedupRef} {after : FwState}
      (hdedup : c.dedup = some ref) (hfree : (ref.keySpace, c.key) ∉ st.stores ref.store)
      (hover : c.Overflows fw src) (hstores : after.stores = claimedStores ref c.key st.stores) :
      Outcome env fw entry src now st (some c) (.error (.packet .fragOverflow), after)
  | emitted {c : Candidate} {ref : DedupRef} {after : FwState}
      (hdedup : c.dedup = some ref) (hfree : (ref.keySpace, c.key) ∉ st.stores ref.store)
      (hfit : ¬ c.Overflows fw src) (hstores : after.stores = claimedStores ref c.key st.stores)
      (hemitted : Emitted env fw entry src now c st after) :
      Outcome env fw entry src now st (some c) (.ok (), after)

variable {env : Env} {fw : Forwarder} {entry : Entry} {src : Option NetAddr} {now : Time}
  {st : FwState}

theorem Kept.refl (st : FwState) : Kept st st := ⟨rfl, rfl, rfl⟩

/-- Charging the budgets is no trace of an object. -/
theorem Kept.charged (st : FwState) (limiter : BEEFLimiter) :
    Kept st { st with beefLimit := limiter } := ⟨rfl, rfl, rfl⟩

theorem Sent.of_kept {raw : Bytes} {id : Hash32} {payload : Bytes} {before after : FwState}
    (hsent : Sent env fw raw id payload before after) (hqueue : before.queue = st.queue)
    (hcoal : before.coal = st.coal) : Sent env fw raw id payload st after := by
  cases hsent with
  | whole hafter hsome hreqs => exact .whole (hqueue ▸ hafter) hsome hreqs
  | fragments hafter hpieces hid hpayload =>
      exact .fragments (hqueue ▸ hafter) hpieces hid hpayload
  | member hbuffer hadded => exact .member (hcoal ▸ hbuffer) hadded

/-- Claim, then send: the claim is lost, or the object is sent, or it is dropped
as too large with its claim taken. -/
theorem Outcome.of_claim {c : Candidate} {ref : DedupRef} (hdedup : c.dedup = some ref)
    {before : FwState} (hkept : Kept st before) {act : Fw Unit}
    (hact : ∀ st, (c.Overflows fw src ∧ act st = (.error (.packet .fragOverflow), st)) ∨
      (¬ c.Overflows fw src ∧ ∃ after, act st = (.ok (), after) ∧ after.stores = st.stores ∧
        Sent env fw c.raw c.id c.payload st after)) (frameType : String) :
    Outcome env fw entry src now st (some c)
      ((claimIngressIn c.dedup c.key frameType >>= fun _ => act) before) := by
  rw [Fw.bind_apply, hdedup]
  by_cases hclaimed : (ref.keySpace, c.key) ∈ st.stores ref.store
  · rw [claimIngressIn_of_mem (hkept.stores ▸ hclaimed)]
    exact .duplicate hdedup hclaimed hkept
  · rw [claimIngressIn_of_not_mem (hkept.stores ▸ hclaimed)]
    rcases hact { before with stores := claimedStores ref c.key before.stores } with
      ⟨hover, hdrop⟩ | ⟨hfit, after, hsend, hstores, hsent⟩
    · simp only [hdrop]
      exact .burnt hdedup hclaimed hover (by rw [hkept.stores])
    · simp only [hsend]
      refine .emitted hdedup hclaimed hfit ?_ (Or.inl ?_)
      · rw [hstores, hkept.stores]
      · exact hsent.of_kept hkept.queue hkept.coal

theorem Outcome.of_splittable (hdec : DecodeLaws env) (hfrag : FragmentLaws env)
    {w : Splittable} (hdecoded : w.Decoded env) {ref : DedupRef} (key : Hash32)
    (frameType : String) {before : FwState} (hkept : Kept st before) :
    Outcome env fw entry src now st
      (some ⟨some ref, key, w.objectID, w.raw, w.payload, true⟩)
      ((claimIngressIn (some ref) key frameType >>= fun _ => w.emit env fw src) before) := by
  refine Outcome.of_claim rfl hkept ?_ frameType
  intro st
  rcases Splittable.emit_cases hdec hfrag hdecoded src st with ⟨hover, hdrop⟩ | ⟨hfit, hsent⟩
  · exact Or.inl ⟨⟨hover.1, rfl, hover.2⟩, hdrop⟩
  · exact Or.inr ⟨fun hover => hfit ⟨hover.1, hover.2.2⟩, hsent⟩

/-- An anchor is never split. -/
theorem Outcome.of_anchor (hdec : DecodeLaws env) (hfrag : FragmentLaws env) {raw : Bytes}
    {f : Frame} (hdecode : env.decodeAnchor raw = some f) {ref : DedupRef} :
    Outcome env fw entry src now st (some ⟨some ref, f.txID, f.txID, raw, f.payload, false⟩)
      ((claimIngressIn (some ref) f.txID "brc134" >>= fun _ => emitAnchor env fw raw src)
        st) := by
  refine Outcome.of_claim rfl (Kept.refl st) ?_ "brc134"
  intro st
  have hwhole : ¬ (anchorOut fw raw src).Overflows := by
    rintro ⟨plan, hplan, _⟩
    cases hplan
  have hcases := (anchorOut fw raw src).send_cases hfrag f.txID f.payload
    (hdec.decodeAnchor_size hdecode) (fun _ => by simp [anchorOut, enqueueCacheable])
    (fun plan hplan => by cases hplan) st
  rw [emitAnchor_eq]
  rcases hcases with ⟨hover, _⟩ | ⟨_, hsent⟩
  · exact absurd hover hwhole
  · exact Or.inr ⟨fun hover => Bool.false_ne_true hover.2.1, hsent⟩

theorem txGates_ok {raw : Bytes} {verify : Bool} {f : Frame}
    (hgates : txGates env fw raw verify = .ok f) : env.decode raw = some f := by
  rw [txGates] at hgates
  split at hgates
  · cases hgates
  · rename_i decoded hdecode
    repeat' split at hgates
    all_goals cases hgates
    exact hdecode

/-- An unstamped V2 frame in the wanted format, of its own payload where that is
verified, passes the checks. -/
theorem txGates_of_unstamped {raw : Bytes} {f : Frame} {verify : Bool}
    (hdecode : env.decode raw = some f) (hversion : f.version = frameVerV2)
    (hunstamped : f.seqNum = 0) (hformat : fw.requireEF = true → env.isEF f.payload = true)
    (hone : verify = true → env.txSize f.payload = some f.payload.length)
    (hown : verify = true → env.txID f.payload = some f.txID) :
    txGates env fw raw verify = .ok f := by
  have hlegacy : f.version ≠ frameVerV1 := by
    rw [hversion]
    decide
  simp only [txGates, hdecode]
  rw [if_neg, if_neg, if_neg, if_neg]
  · rintro ⟨hverify, _, hforged⟩
    exact hforged (hown hverify)
  · rintro ⟨hverify, _, hmany⟩
    exact hmany (hone hverify)
  · rintro ⟨hrequired, hplain⟩
    exact absurd (hplain.resolve_left hlegacy) (ne_of_eq_of_ne (hformat hrequired) (by decide))
  · rintro ⟨_, _, hstamped⟩
    exact hstamped hunstamped

theorem blockGates_ok {raw : Bytes} {bf : BlockFrame}
    (hgates : blockGates env fw raw = .ok bf) : env.decodeBlock raw = some bf := by
  rw [blockGates] at hgates
  split at hgates
  · cases hgates
  · rename_i decoded hdecode
    split at hgates
    · cases hgates
    · cases hgates
      exact hdecode

theorem subtreeGates_ok {raw : Bytes} {sf : SubtreeDataFrame}
    (hgates : subtreeGates env fw raw = .ok sf) : env.decodeSubtreeData raw = some sf := by
  rw [subtreeGates] at hgates
  split at hgates
  · cases hgates
  · rename_i decoded hdecode
    repeat' split at hgates
    all_goals cases hgates
    all_goals exact hdecode

theorem anchorGates_ok {raw : Bytes} {f : Frame} (hgates : anchorGates env raw = .ok f) :
    env.decodeAnchor raw = some f := by
  rw [anchorGates] at hgates
  split at hgates
  · cases hgates
  · rename_i decoded hdecode
    cases hgates
    exact hdecode

/-- A bare transaction that passes its checks is one V2 frame of itself. -/
theorem bareTxGates_ok (hsub : SubmissionLaws env) {tx framed : Bytes}
    (hgates : bareTxGates env fw tx = .ok framed) :
    ∃ id, env.txID tx = some id ∧
      env.decode framed = some ⟨frameVerV2, id, 0, zeroHash, tx⟩ := by
  rw [bareTxGates] at hgates
  split at hgates
  · cases hgates
  · rename_i hsize
    split at hgates
    · cases hgates
    · split at hgates
      · cases hgates
      · rename_i hreframe
        cases hgates
        exact hsub.reframe (not_not.mp hsize) hreframe

theorem process_of_gates {raw : Bytes} {verify : Bool} {f : Frame}
    (hgates : txGates env fw raw verify = .ok f) (hversion : f.version = frameVerV2)
    {ref : DedupRef} (hstore : fw.txDedup = some ref) :
    process env fw raw src verify st =
      (claimIngressIn (some ref) f.txID "brc124" >>= fun _ => emitTx env fw raw f src) st := by
  rw [process, Fw.gate_bind_ok hgates]
  simp only [hversion, ↓reduceIte, claimIngress, hstore]

theorem process_outcome (hdec : DecodeLaws env) (hfrag : FragmentLaws env) {ref : DedupRef}
    (hstore : fw.txDedup = some ref) {raw : Bytes} {verify : Bool}
    (hversion : ∀ f, env.decode raw = some f → f.version = frameVerV2) :
    Outcome env fw entry src now st (txCandidate env fw raw verify)
      (process env fw raw src verify st) := by
  cases hgates : txGates env fw raw verify with
  | error drop =>
      rw [txCandidate, hgates, process, Fw.gate_bind_error hgates]
      exact .refused (Kept.refl st)
  | ok f =>
      have hdecode := txGates_ok hgates
      have hframe := hversion f hdecode
      rw [txCandidate, hgates, process_of_gates hgates hframe hstore, hstore]
      have hdecoded : (Splittable.tx raw f).Decoded env := ⟨hdecode, hframe⟩
      exact Outcome.of_splittable hdec hfrag hdecoded f.txID "brc124" (Kept.refl st)

theorem beefGates_ok {raw : Bytes} {engine : PlaneEngine} {bf : BEEFFrame} {topics : Nat}
    (hgates : beefGates env fw raw src = .ok (engine, bf, topics)) :
    env.decodeBEEF raw = some bf := by
  rw [beefGates] at hgates
  split at hgates
  · cases hgates
  · split at hgates
    · cases hgates
    · rename_i decoded hdecode
      split at hgates
      · cases hgates
      · repeat' split at hgates
        all_goals cases hgates
        exact hdecode

theorem set_byteAt_self {raw : Bytes} {pos : Nat} (hpos : pos < raw.length) :
    raw.set pos (byteAt raw pos) = raw := by
  rw [byteAt, List.getD_eq_getElem?_getD, List.getElem?_eq_getElem hpos, Option.getD_some]
  exact List.set_getElem_self hpos

/-- Setting the DeliverCount writes byte 7, or what byte 7 already says. -/
theorem setDeliverCount_eq (hdec : DecodeLaws env) {raw : Bytes} {bf : BEEFFrame}
    (hdecode : env.decodeBEEF raw = some bf) (src : Option NetAddr) (topics : Nat) :
    ∃ deliver, setDeliverCount fw bf raw src topics =
      ({ bf with deliverCount := deliver }, raw.set 7 deliver) := by
  cases src with
  | some s => exact ⟨_, rfl⟩
  | none =>
      have hsize := (hdec.decodeBEEF_size hdecode).1
      have hseven : 7 < raw.length := Nat.lt_of_lt_of_le (by decide) hsize
      refine ⟨bf.deliverCount, ?_⟩
      rw [hdec.decodeBEEF_deliverCount hdecode, set_byteAt_self hseven,
        ← hdec.decodeBEEF_deliverCount hdecode]
      rfl

/-- What a budget decision makes of a frame. -/
def budgetVerdict : RateDecision → Except Drop Unit
  | .allow => .ok ()
  | .denySource => .error (.packet .beefRateSource)
  | .denyPlane => .error (.packet .beefRatePlane)

theorem chargeBudget_apply (src : Option NetAddr) (n : Nat) (now : Time) (st : FwState) :
    chargeBudget env src n now st =
      (budgetVerdict (st.beefLimit.allow env src n now).1,
        { st with beefLimit := (st.beefLimit.allow env src n now).2 }) := by
  rw [chargeBudget]
  cases hdecision : (st.beefLimit.allow env src n now).1 <;> simp [hdecision, budgetVerdict]

/-- `checkBEEF` refuses a frame, or comes to the claim of its candidate with
only the budgets charged. -/
theorem checkBEEF_cases (hdec : DecodeLaws env) {ref : DedupRef}
    (hstore : fw.beefDedup.or fw.txDedup = some ref) (raw : Bytes) (checkContentID : Bool) :
    (beefCandidate env fw raw src now checkContentID st = none ∧
      ∃ drop before, Kept st before ∧
        checkBEEF env fw raw src now checkContentID st = (.error drop, before)) ∨
    (∃ bf deliver groupIdx before, env.decodeBEEF raw = some bf ∧ Kept st before ∧
      beefCandidate env fw raw src now checkContentID st =
        some ⟨some ref, beefClaimKey env bf.contentID bf.topicID, bf.contentID,
          raw.set 7 deliver, bf.payload, true⟩ ∧
      checkBEEF env fw raw src now checkContentID st =
        (claimIngressIn (some ref) (beefClaimKey env bf.contentID bf.topicID) "brc148" >>=
          fun _ => pure (Splittable.checked raw bf deliver groupIdx)) before) := by
  have hclaim : ∀ key, claimBEEFIngress fw key "brc148" =
      claimIngressIn (some ref) key "brc148" := by
    intro key
    rw [claimBEEFIngress]
    cases hbeef : fw.beefDedup with
    | none =>
        rw [hbeef, Option.none_or] at hstore
        simp only [hstore]
    | some own =>
        rw [hbeef, Option.some_or] at hstore
        simp only [hstore]
  cases hgates : beefGates env fw raw src with
  | error drop =>
      refine Or.inl ⟨?_, drop, st, Kept.refl st, ?_⟩
      · rw [beefCandidate, hgates]
      · rw [checkBEEF, Fw.gate_bind_error hgates]
  | ok passed =>
      obtain ⟨engine, bf, topics⟩ := passed
      have hdecode := beefGates_ok hgates
      obtain ⟨deliver, hmarked⟩ :
          ∃ deliver, setDeliverCount fw bf raw src topics =
            ({ bf with deliverCount := deliver }, raw.set 7 deliver) :=
        setDeliverCount_eq hdec hdecode src topics
      have hrun : checkBEEF env fw raw src now checkContentID st =
          (chargeBudget env src (raw.set 7 deliver).length now >>= fun _ =>
            Fw.gate (contentGate env { bf with deliverCount := deliver } src checkContentID)
              >>= fun _ =>
            claimIngressIn (some ref) (beefClaimKey env bf.contentID bf.topicID) "brc148"
              >>= fun _ => pure (Splittable.checked raw bf deliver
                (engine.groupIndex bf.topicID))) st := by
        rw [checkBEEF, Fw.gate_bind_ok hgates]
        simp only [hmarked, hclaim]
        rfl
      rw [hrun, beefCandidate, hgates]
      simp only [hmarked]
      rw [Fw.bind_apply, chargeBudget_apply]
      cases hallow : (st.beefLimit.allow env src (raw.set 7 deliver).length now).1 with
      | denySource => exact Or.inl ⟨rfl, _, _, Kept.charged st _, rfl⟩
      | denyPlane => exact Or.inl ⟨rfl, _, _, Kept.charged st _, rfl⟩
      | allow =>
          simp only [budgetVerdict]
          cases hcontent : contentGate env { bf with deliverCount := deliver } src
              checkContentID with
          | error drop =>
              rw [Fw.gate_bind_error rfl]
              exact Or.inl ⟨rfl, drop, _, Kept.charged st _, rfl⟩
          | ok passed =>
              rw [Fw.gate_bind_ok rfl, hstore]
              exact Or.inr ⟨bf, deliver, _, _, hdecode, Kept.charged st _, rfl, rfl⟩

theorem processBEEF_outcome (hdec : DecodeLaws env) (hfrag : FragmentLaws env)
    {ref : DedupRef} (hstore : fw.beefDedup.or fw.txDedup = some ref) (raw : Bytes)
    (checkContentID : Bool) :
    Outcome env fw entry src now st (beefCandidate env fw raw src now checkContentID st)
      (processBEEF env fw raw src now checkContentID st) := by
  rcases checkBEEF_cases hdec hstore raw checkContentID with
    ⟨hnone, drop, before, hkept, hcheck⟩ |
    ⟨bf, deliver, groupIdx, before, hdecode, hkept, hsome, hcheck⟩
  · rw [hnone, processBEEF, Fw.bind_of_error hcheck]
    exact .refused hkept
  · have hrun : processBEEF env fw raw src now checkContentID st =
        (claimIngressIn (some ref) (beefClaimKey env bf.contentID bf.topicID) "brc148" >>=
          fun _ => (Splittable.beef raw bf deliver groupIdx).emit env fw src) before := by
      rw [processBEEF, Fw.bind_apply, hcheck, ← Fw.bind_apply, Fw.bind_assoc]
      rfl
    rw [hsome, hrun]
    have hdecoded : (Splittable.beef raw bf deliver groupIdx).Decoded env := hdecode
    exact Outcome.of_splittable hdec hfrag hdecoded _ "brc148" hkept

/-- `AdmitBEEF` after its check: an admission, or a drop of what is too large. -/
theorem admitBEEF_of_check {p : PreparedBEEF} {raw : Bytes} (hframe : p.frame = some raw)
    {checked : CheckedBEEF} {after : FwState}
    (hcheck : checkBEEF env fw raw src now false st = (.ok checked, after)) :
    ((src.isSome ∧ fw.fragments checked.bf.payload ∧
        65535 < fw.fragTotal checked.bf.payload) ∧
      admitBEEF env fw p src now st = (.error (.packet .fragOverflow), after)) ∨
    (¬ (src.isSome ∧ fw.fragments checked.bf.payload ∧
        65535 < fw.fragTotal checked.bf.payload) ∧
      ∃ a final, admitBEEF env fw p src now st = (.ok a, final) ∧
        final.stores = after.stores) := by
  simp only [admitBEEF, hframe, Fw.bind_apply, hcheck]
  cases src with
  | none => exact Or.inr ⟨fun hover => Bool.false_ne_true hover.1, _, _, rfl, rfl⟩
  | some s =>
      by_cases hover : fw.fragments checked.bf.payload ∧
          65535 < fw.fragTotal checked.bf.payload
      · refine Or.inl ⟨⟨rfl, hover⟩, ?_⟩
        simp only [if_pos hover, Fw.fail_apply]
      · refine Or.inr ⟨fun hlarge => hover hlarge.2, ?_⟩
        simp only [if_neg hover]
        exact ⟨_, _, rfl, rfl⟩

theorem dispatchBEEF_outcome (hdec : DecodeLaws env) (hfrag : FragmentLaws env)
    {ref : DedupRef} (hstore : fw.beefDedup.or fw.txDedup = some ref) (p : PreparedBEEF) :
    Outcome env fw (.dispatchBEEF p) src now st
      ((Entry.dispatchBEEF p).candidate env fw src now st)
      ((Entry.dispatchBEEF p).run env fw src now st) := by
  cases hframe : p.frame with
  | none =>
      simp only [Entry.candidate, Entry.run, ShardProxy.dispatchBEEF, hframe]
      exact .refused (Kept.refl st)
  | some raw =>
      simp only [Entry.candidate, Entry.run, ShardProxy.dispatchBEEF, hframe, Option.bind_some]
      exact processBEEF_outcome hdec hfrag hstore raw false

theorem admitBEEF_outcome (hdec : DecodeLaws env) {ref : DedupRef}
    (hstore : fw.beefDedup.or fw.txDedup = some ref) (p : PreparedBEEF) :
    Outcome env fw (.admitBEEF p) src now st
      ((Entry.admitBEEF p).candidate env fw src now st)
      ((Entry.admitBEEF p).run env fw src now st) := by
  cases hframe : p.frame with
  | none =>
      simp only [Entry.candidate, Entry.run, admitBEEF, hframe]
      exact .refused (Kept.refl st)
  | some raw =>
      have hcandidate : (Entry.admitBEEF p).candidate env fw src now st =
          beefCandidate env fw raw src now false st := by
        rw [Entry.candidate, hframe]
        rfl
      rw [hcandidate, Entry.run]
      rcases checkBEEF_cases hdec hstore raw false with
        ⟨hnone, drop, before, hkept, hcheck⟩ |
        ⟨bf, deliver, groupIdx, before, hdecode, hkept, hsome, hcheck⟩
      · have hadmit : admitBEEF env fw p src now st = (.error drop, before) := by
          simp only [admitBEEF, hframe]
          exact Fw.bind_of_error hcheck _
        rw [hnone, Fw.bind_of_error hadmit]
        exact .refused hkept
      · rw [hsome]
        by_cases hclaimed :
            (ref.keySpace, beefClaimKey env bf.contentID bf.topicID) ∈ st.stores ref.store
        · rw [Fw.bind_apply, claimIngressIn_of_mem (hkept.stores ▸ hclaimed)] at hcheck
          have hadmit : admitBEEF env fw p src now st =
              (.error (.deduped "brc148"), before) := by
            simp only [admitBEEF, hframe]
            exact Fw.bind_of_error hcheck _
          rw [Fw.bind_of_error hadmit]
          exact .duplicate rfl hclaimed hkept
        · rw [Fw.bind_apply, claimIngressIn_of_not_mem (hkept.stores ▸ hclaimed)] at hcheck
          rcases admitBEEF_of_check hframe hcheck with
            ⟨hover, hadmit⟩ | ⟨hfit, a, final, hadmit, hstores⟩
          · rw [Fw.bind_of_error hadmit]
            refine .burnt rfl hclaimed ⟨hover.1, rfl, hover.2⟩ ?_
            simp only [hkept.stores]
          · rw [Fw.bind_apply, hadmit]
            refine .emitted rfl hclaimed (fun hover => hfit ⟨hover.1, hover.2.2⟩) ?_
              (Or.inr ⟨p, a, rfl, hadmit⟩)
            rw [hstores]
            simp only [hkept.stores]

/-- What every entry point did with its candidate. -/
theorem Entry.outcome (hdec : DecodeLaws env) (hfrag : FragmentLaws env)
    (hsub : SubmissionLaws env) {ref : DedupRef} (hstore : fw.txDedup = some ref)
    (entry : Entry) (hlegacy : entry.NotLegacy env) :
    Outcome env fw entry src now st (entry.candidate env fw src now st)
      (entry.run env fw src now st) := by
  have hbeefStore : ∃ own, fw.beefDedup.or fw.txDedup = some own := by
    cases hbeef : fw.beefDedup with
    | none => exact ⟨ref, by rw [Option.none_or]; exact hstore⟩
    | some own => exact ⟨own, rfl⟩
  obtain ⟨own, hown⟩ := hbeefStore
  cases entry with
  | process raw =>
      refine process_outcome hdec hfrag hstore ?_
      intro f hdecode
      exact (hdec.decode_version hdecode).resolve_left (hlegacy f hdecode)
  | bareTx tx =>
      cases hgates : bareTxGates env fw tx with
      | error drop =>
          simp only [Entry.candidate, Entry.run, dispatchBareTx, hgates]
          exact .refused (Kept.refl st)
      | ok framed =>
          simp only [Entry.candidate, Entry.run, dispatchBareTx, hgates]
          rw [Fw.gate_bind_ok rfl]
          refine process_outcome hdec hfrag hstore ?_
          intro f hdecode
          obtain ⟨id, _, hframed⟩ := bareTxGates_ok hsub hgates
          obtain rfl := Option.some.inj (hframed.symm.trans hdecode)
          rfl
  | block raw =>
      cases hgates : blockGates env fw raw with
      | error drop =>
          simp only [Entry.candidate, Entry.run, processBlock, hgates]
          exact .refused (Kept.refl st)
      | ok bf =>
          simp only [Entry.candidate, Entry.run, processBlock, hgates, claimIngress, hstore]
          rw [Fw.gate_bind_ok rfl]
          have hdecoded : (Splittable.block raw bf).Decoded env := blockGates_ok hgates
          exact Outcome.of_splittable hdec hfrag hdecoded _ "brc131" (Kept.refl st)
  | anchor raw =>
      cases hgates : anchorGates env raw with
      | error drop =>
          simp only [Entry.candidate, Entry.run, processAnchor, hgates]
          exact .refused (Kept.refl st)
      | ok f =>
          simp only [Entry.candidate, Entry.run, processAnchor, hgates, claimIngress, hstore]
          rw [Fw.gate_bind_ok rfl]
          exact Outcome.of_anchor hdec hfrag (anchorGates_ok hgates)
  | subtreeData raw =>
      cases hgates : subtreeGates env fw raw with
      | error drop =>
          simp only [Entry.candidate, Entry.run, processSubtreeData, hgates]
          exact .refused (Kept.refl st)
      | ok sf =>
          simp only [Entry.candidate, Entry.run, processSubtreeData, hgates, claimIngress,
            hstore]
          rw [Fw.gate_bind_ok rfl]
          have hdecoded : (Splittable.subtreeData raw sf).Decoded env :=
            subtreeGates_ok hgates
          exact Outcome.of_splittable hdec hfrag hdecoded _ "brc132" (Kept.refl st)
  | beef raw => exact processBEEF_outcome hdec hfrag hown raw true
  | dispatchBEEF p => exact dispatchBEEF_outcome hdec hfrag hown p
  | admitBEEF p => exact admitBEEF_outcome hdec hown p

theorem Candidate.mem_claimedStores {c : Candidate} {ref : DedupRef}
    (hdedup : c.dedup = some ref) {stores : Nat → Finset (String × Hash32)} {store : Nat}
    {claim : String × Hash32} :
    claim ∈ claimedStores ref c.key stores store ↔
      claim ∈ stores store ∨
        ∃ c' ref', some c = some c' ∧ c'.dedup = some ref' ∧ ref'.store = store ∧
          claim = (ref'.keySpace, c'.key) := by
  rw [ShardProxy.mem_claimedStores]
  refine or_congr_right ⟨fun hnew => ⟨c, ref, rfl, hdedup, hnew⟩, ?_⟩
  rintro ⟨c', ref', hsome, hdedup', hnew⟩
  obtain rfl := Option.some.inj hsome
  obtain rfl := Option.some.inj (hdedup.symm.trans hdedup')
  exact hnew

/-- An entry point adds the key of its candidate to the claims, and no other. -/
theorem Outcome.mem_stores {entry : Entry} {candidate : Option Candidate}
    {after : Except Drop Unit × FwState}
    (houtcome : Outcome env fw entry src now st candidate after) (store : Nat)
    (claim : String × Hash32) :
    claim ∈ after.2.stores store ↔
      claim ∈ st.stores store ∨
        ∃ c ref, candidate = some c ∧ c.dedup = some ref ∧ ref.store = store ∧
          claim = (ref.keySpace, c.key) := by
  cases houtcome with
  | refused hkept =>
      rw [hkept.stores]
      simp
  | @duplicate c ref frameType after hdedup hclaimed hkept =>
      rw [hkept.stores]
      constructor
      · exact Or.inl
      · rintro (hold | ⟨c', ref', hsome, hdedup', rfl, rfl⟩)
        · exact hold
        · obtain rfl := Option.some.inj hsome
          obtain rfl := Option.some.inj (hdedup.symm.trans hdedup')
          exact hclaimed
  | burnt hdedup hfree hover hstores =>
      rw [hstores]
      exact Candidate.mem_claimedStores hdedup
  | emitted hdedup hfree hfit hstores hemitted =>
      rw [hstores]
      exact Candidate.mem_claimedStores hdedup

theorem Outcome.not_claimedIffEmitted
    (houtcome : Outcome env fw entry src now st (entry.candidate env fw src now st)
      (entry.run env fw src now st)) (hburns : BurnsClaim env fw entry src now st) :
    ¬ ClaimedIffEmitted env fw entry src now st := by
  obtain ⟨c, ref, hsome, hdedup, hfree, hover⟩ := hburns
  rw [ClaimedIffEmitted]
  rw [hsome] at houtcome
  generalize entry.run env fw src now st = after at houtcome
  cases houtcome with
  | @duplicate _ ref' _ _ hdedup' hclaimed _ =>
      obtain rfl := Option.some.inj (hdedup.symm.trans hdedup')
      exact absurd hclaimed hfree
  | @burnt _ ref' _ hdedup' _ _ hstores =>
      obtain rfl := Option.some.inj (hdedup.symm.trans hdedup')
      rintro (⟨_, _, hkept⟩ | ⟨hok, _⟩)
      · exact claimedStores_ne hfree (hstores.symm.trans hkept.stores)
      · cases hok
  | emitted _ _ hfit _ _ => exact absurd hover hfit

theorem Outcome.claimedIffEmitted
    (houtcome : Outcome env fw entry src now st (entry.candidate env fw src now st)
      (entry.run env fw src now st)) (hburns : ¬ BurnsClaim env fw entry src now st) :
    ClaimedIffEmitted env fw entry src now st := by
  rw [BurnsClaim] at hburns
  rw [ClaimedIffEmitted]
  generalize entry.candidate env fw src now st = candidate at houtcome hburns
  generalize entry.run env fw src now st = after at houtcome
  cases houtcome with
  | refused hkept => exact Or.inl ⟨_, rfl, hkept⟩
  | duplicate _ _ hkept => exact Or.inl ⟨_, rfl, hkept⟩
  | burnt hdedup hfree hover _ => exact absurd ⟨_, _, rfl, hdedup, hfree, hover⟩ hburns
  | emitted hdedup hfree _ hstores hemitted =>
      exact Or.inr ⟨rfl, _, _, rfl, hdedup, hfree, hstores, hemitted⟩

/-- The claim discipline, and the one way it is broken: an entry point claims if
and only if it emits, except for an unclaimed object from a source that passes
every check and takes more than 65535 fragments. -/
theorem claimedIffEmitted_iff (hdec : DecodeLaws env) (hfrag : FragmentLaws env)
    (hsub : SubmissionLaws env) {ref : DedupRef} (hstore : fw.txDedup = some ref)
    (entry : Entry) (hlegacy : entry.NotLegacy env) (src : Option NetAddr) (now : Time)
    (st : FwState) :
    ClaimedIffEmitted env fw entry src now st ↔ ¬ BurnsClaim env fw entry src now st := by
  have houtcome : Outcome env fw entry src now st (entry.candidate env fw src now st)
      (entry.run env fw src now st) := entry.outcome hdec hfrag hsub hstore hlegacy
  constructor
  · intro hemitted hburns
    exact houtcome.not_claimedIffEmitted hburns hemitted
  · exact houtcome.claimedIffEmitted

end Outcomes

section Sample

open Reference

/-- A frame under its own id passes the discipline's premises. -/
theorem claimedIffEmitted_iff_sample :
    dedupForwarder.txDedup = some ⟨0, "tx"⟩ ∧
      (ClaimedIffEmitted Reference.env dedupForwarder
          (.process (sampleFrame (sampleID 1) (sampleTx 0))) (some (source 1)) 0 state ↔
        ¬ BurnsClaim Reference.env dedupForwarder
          (.process (sampleFrame (sampleID 1) (sampleTx 0))) (some (source 1)) 0 state) := by
  have hstore : dedupForwarder.txDedup = some ⟨0, "tx"⟩ := rfl
  have hlegacy : (Entry.process (sampleFrame (sampleID 1) (sampleTx 0))).NotLegacy
      Reference.env := by
    intro f hdecode
    rw [decode_sampleFrame _ (by rw [length_sampleTx]; decide)] at hdecode
    rw [← Option.some.inj hdecode]
    decide
  exact ⟨hstore, claimedIffEmitted_iff decodeLaws fragmentLaws submissionLaws hstore _ hlegacy
    (some (source 1)) 0 state⟩

def subtreePush (payload : Bytes) : Bytes :=
  encodeFields frameVerV5 ⟨subtreeMsgHashesOnly, sampleID 5, 0, 0, zeroHash, payload⟩

/-- At an MTU of 1500 a push of more than 65535 pieces is claimed and dropped. -/
theorem burnsClaim_subtreePush {payload : Bytes} (hlength : payload.length < 2 ^ 32)
    (hlarge : 65535 * 1348 < payload.length) :
    BurnsClaim Reference.env (dedupForwarder.setFragMTU 1500)
      (.subtreeData (subtreePush payload)) (some (source 1)) 0 state := by
  have hdecode : Reference.env.decodeSubtreeData (subtreePush payload) =
      some ⟨subtreeMsgHashesOnly, sampleID 5, payload⟩ :=
    decodeSubtreeData_encodeFields ⟨subtreeMsgHashesOnly, sampleID 5, 0, 0, zeroHash, payload⟩
      hlength (Or.inl rfl)
  have hcandidate : (Entry.subtreeData (subtreePush payload)).candidate Reference.env
      (dedupForwarder.setFragMTU 1500) (some (source 1)) 0 state =
        some ⟨some ⟨0, "tx"⟩, sampleID 5, sampleID 5, subtreePush payload, payload, true⟩ := by
    simp only [Entry.candidate, subtreeGates, hdecode]
    rfl
  have hsize : (dedupForwarder.setFragMTU 1500).fragDataSize = 1348 := rfl
  have hfragments : (dedupForwarder.setFragMTU 1500).fragments payload := by
    rw [Forwarder.fragments, hsize]
    exact ⟨by decide, Nat.lt_trans (by decide) hlarge⟩
  have htotal : 65535 < (dedupForwarder.setFragMTU 1500).fragTotal payload := by
    rw [Forwarder.fragTotal, hsize]
    exact (lt_chunkCount_iff (by decide)).mpr hlarge
  exact ⟨_, ⟨0, "tx"⟩, hcandidate, rfl, Finset.notMem_empty _, rfl, rfl, hfragments, htotal⟩

/-- A push of 88341208 bytes, which at an MTU of 1500 takes 65536 pieces, is
claimed and then dropped: the claim suppresses every later copy, and nothing was
ever sent. -/
theorem subtreePush_not_claimedIffEmitted :
    ¬ ClaimedIffEmitted Reference.env (dedupForwarder.setFragMTU 1500)
      (.subtreeData (subtreePush (List.replicate 88341208 0))) (some (source 1)) 0 state := by
  have hstore : (dedupForwarder.setFragMTU 1500).txDedup = some ⟨0, "tx"⟩ := rfl
  have hlegacy : (Entry.subtreeData (subtreePush (List.replicate 88341208 0))).NotLegacy
      Reference.env := trivial
  apply (Entry.outcome decodeLaws fragmentLaws submissionLaws hstore _ hlegacy
    ).not_claimedIffEmitted
  apply burnsClaim_subtreePush
  · rw [List.length_replicate]
    decide
  · rw [List.length_replicate]
    decide

end Sample

end ShardProxy
