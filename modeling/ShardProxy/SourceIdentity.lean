/-
Source identity.  With source stamping on, what an open socket puts on the
fabric carries the HashKey of a flow of the observed source, whatever the
sender wrote, whether it leaves whole, in fragments or in a bundle with others
of its flow.  A bundle that came ready made is relayed with the HashKey it has.
-/
import ShardProxy.Routing

namespace ShardProxy

open ByteField Dispenser

section Flows

variable (env : Env) (fw : Forwarder)

/-- The flows of a datagram from a source: a transaction's shard and subtree, the
anchors' own flow, or the group of a topic. -/
inductive FlowOf (raw : Bytes) (src : NetAddr) : ChainKey → Prop where
  | tx {frame : Bytes} {f : Frame} (hframe : TxFrame env fw raw frame)
      (hdecode : env.decode frame = some f) (hversion : f.version = frameVerV2) :
      FlowOf raw src ⟨addrToIPv6 src, fw.engine.groupIndex f.txID, f.subtreeID⟩
  | anchor (hanchor : IsAnchor env raw) :
      FlowOf raw src ⟨addrToIPv6 src, groupAnchorFlow.toUInt32, zeroHash⟩
  | beef {frame : Bytes} {checkContentID : Bool} {plane : PlaneEngine} {bf : BEEFFrame}
      (hsubmits : SubmitsBEEF env fw raw (some src) frame checkContentID)
      (hplane : fw.beefEngine = some plane) (hdecode : env.decodeBEEF frame = some bf) :
      FlowOf raw src ⟨addrToIPv6 src, plane.groupIndex bf.topicID, zeroHash⟩

/-- A datagram without a HashKey: a V1 frame. -/
def Keyless (datagram : Bytes) : Prop :=
  ∃ f, env.decode datagram = some f ∧ f.version = frameVerV1

/-- The datagram carries the HashKey of a flow. -/
def KeyedBy (flow : ChainKey) (datagram : Bytes) : Prop :=
  uint64At datagram 40 = env.hashKey flow

variable {env fw} {raw : Bytes} {src : NetAddr} {now : Time} {st : FwState}

theorem FlowOf.ip {flow : ChainKey} (hflow : FlowOf env fw raw src flow) :
    flow.ip = addrToIPv6 src := by
  cases hflow <;> rfl

/-- With source stamping on, stamping always writes the HashKey. -/
theorem keyedBy_stamped (hstamp : fw.stampSource = true) {frame : Bytes}
    (hsize : headerSize ≤ frame.length) (flow : ChainKey) (last : UInt64) :
    KeyedBy env flow (stamped env fw frame flow last) := by
  have hfit : 40 + 8 ≤ frame.length := Nat.le_trans (by decide) hsize
  have hkey : uint64At (putUint64 frame 40 (env.hashKey flow)) 40 = env.hashKey flow :=
    uint64At_putUint64_self frame _ hfit
  rw [KeyedBy, stamped]
  split
  · have hseq : 48 + 8 ≤ (putUint64 frame 40 (env.hashKey flow)).length := by
      rw [length_putUint64 frame _ hfit]
      exact Nat.le_trans (by decide) hsize
    exact (uint64At_putUint64_of_disjoint _ _ hseq (Or.inl (by decide))).trans hkey
  · rw [if_pos (Or.inr hstamp), hkey]

/-- Everything sending an object queues carries its flow's HashKey. -/
theorem Outgoing.keyed (hfrag : FragmentLaws env) (hstamp : fw.stampSource = true)
    {o : Outgoing fw} {flow : ChainKey} (hflow : o.flow = some flow)
    (hsplit : ∀ plan, o.split = some plan → plan.flow = flow)
    (hsize : headerSize ≤ o.raw.length) (hreqs : ∀ sent, ∀ req ∈ o.reqs sent, req.raw = sent)
    {chains : Chains} {req : EnqueueReq} (hreq : req ∈ o.requests env chains) :
    KeyedBy env flow req.raw := by
  rcases Outgoing.mem_requests hreq with ⟨plan, hplan, hpiece⟩ | ⟨_, hwhole⟩
  · obtain ⟨i, _, rfl⟩ := List.mem_map.mp hpiece
    rw [← hsplit plan hplan]
    exact (carries_planDatagram hfrag plan _ i _).1
  · rw [hreqs _ req hwhole, Outgoing.frame, hflow]
    exact keyedBy_stamped hstamp hsize flow _

theorem raw_of_mem_txOut {bridging : Option Engine} {frame sent : Bytes} {f : Frame}
    {sender : Option NetAddr} {req : EnqueueReq}
    (hreq : req ∈ (txOut fw bridging frame f sender).reqs sent) : req.raw = sent := by
  rcases List.mem_cons.mp hreq with rfl | hcopy
  · rfl
  · exact raw_of_mem_bridgeCopy hcopy

/-- What is sent for a datagram of a source is keyed by a flow of the source. -/
theorem Object.keyed (hdec : DecodeLaws env) (hfrag : FragmentLaws env)
    (hstamp : fw.stampSource = true) {o : Outgoing fw}
    (hobject : Object env fw raw (some src) now st o) {req : EnqueueReq}
    (hreq : req ∈ o.requests env st.chains) :
    Keyless env req.raw ∨ ∃ flow, FlowOf env fw raw src flow ∧ KeyedBy env flow req.raw := by
  cases hobject with
  | @tx frame f hframe hdecode hversion =>
      refine Or.inr ⟨_, .tx hframe hdecode hversion, ?_⟩
      refine Outgoing.keyed hfrag hstamp rfl ?_ (hdec.decode_size hdecode hversion).1
        (fun sent req hsent => raw_of_mem_txOut hsent) hreq
      intro plan hsplit
      obtain ⟨s, hsrc, rfl⟩ := splitOf_some hsplit
      obtain rfl := Option.some.inj hsrc
      rfl
  | @legacy frame f hframe hdecode hversion =>
      refine Or.inl ⟨f, ?_, hversion⟩
      rcases List.mem_cons.mp hreq with rfl | hcopy
      · exact hdecode
      · rw [raw_of_mem_bridgeCopy hcopy]
        exact hdecode
  | anchor hanchor =>
      obtain ⟨f, hdecode⟩ := hanchor.decodes
      refine Or.inr ⟨_, .anchor hanchor, ?_⟩
      refine Outgoing.keyed hfrag hstamp rfl ?_ (hdec.decodeAnchor_size hdecode) ?_ hreq
      · intro plan hsplit
        cases hsplit
      · intro sent req hsent
        obtain rfl := List.mem_singleton.mp hsent
        rfl
  | @beef frame checkContentID checked after hsubmits hcheck =>
      obtain ⟨plane, bf, topics, hplane, hdecode, rfl⟩ := checkBEEF_ok hcheck
      refine Or.inr ⟨_, .beef hsubmits hplane hdecode, ?_⟩
      refine Outgoing.keyed hfrag hstamp rfl ?_ ?_ ?_ hreq
      · intro plan hsplit
        obtain ⟨s, hsrc, rfl⟩ := splitOf_some hsplit
        obtain rfl := Option.some.inj hsrc
        rfl
      · change headerSize ≤ (frame.set 7 _).length
        rw [List.length_set]
        exact (hdec.decodeBEEF_size hdecode).1
      · intro sent req hsent
        obtain rfl := List.mem_singleton.mp hsent
        rfl

/-- The datagram is a ready-made bundle. -/
def IsBundle (raw : Bytes) : Prop :=
  framed raw ∧ versionByte raw = some frameVerV8

/-- One dispatch: all it queues is keyed by flows of its source. -/
theorem dispatchClass_keyed (hdec : DecodeLaws env) (hfrag : FragmentLaws env)
    (hstamp : fw.stampSource = true) {cls : IngressClass} (hcls : cls ≠ .privileged)
    (hbundle : ¬ IsBundle raw) :
    ∃ new, (dispatchClass env fw raw (some src) now cls st).2.queue = st.queue ++ new ∧
      ∀ req ∈ new, Keyless env req.raw ∨
        ∃ flow, FlowOf env fw raw src flow ∧ KeyedBy env flow req.raw := by
  obtain ⟨new, hqueue, hnew⟩ := dispatchClass_queue hdec hfrag hcls raw
  refine ⟨new, hqueue, ?_⟩
  intro req hreq
  cases hnew req hreq with
  | object hobject hsent => exact hobject.keyed hdec hfrag hstamp hsent
  | bundle hframed hversion _ _ => exact absurd ⟨hframed, hversion⟩ hbundle

end Flows

section Runs

variable (env : Env) (fw : Forwarder)

/-- What happens to a worker: a datagram from a source, or the end of a batch. -/
inductive Event where
  | datagram (raw : Bytes) (src : NetAddr) (now : Time) (cls : IngressClass)
  | flush

def Event.step : Event → FwState → FwState
  | .datagram raw src now cls, st => (dispatchClass env fw raw (some src) now cls st).2
  | .flush, st => (flushCoalescedFw env fw st).2

/-- The state after a worker's events; the queue holds all that was queued. -/
def life (events : List Event) (st : FwState) : FwState :=
  events.foldl (fun st event => event.step env fw st) st

/-- The event is none of the privileged sockets and no ready-made bundle. -/
def Event.Open : Event → Prop
  | .datagram raw _ _ cls => cls ≠ .privileged ∧ ¬ IsBundle raw
  | .flush => True

/-- A bundle member is the transaction of an event with the bundle's flow. -/
def Submitted (events : List Event) (flow : ChainKey) (member : Member) : Prop :=
  ∃ raw src now cls frame f, Event.datagram raw src now cls ∈ events ∧
    TxFrame env fw raw frame ∧ env.decode frame = some f ∧ member = ⟨f.txID, f.payload⟩ ∧
    FlowOf env fw raw src flow

/-- A queued datagram is keyed by a flow of the source it came from; the members
of a bundle all came from the one source whose flow it is keyed by. -/
inductive Identified (events : List Event) (datagram : Bytes) : Prop where
  | sent {raw : Bytes} {src : NetAddr} {now : Time} {cls : IngressClass} {flow : ChainKey}
      (hevent : .datagram raw src now cls ∈ events) (hflow : FlowOf env fw raw src flow)
      (hkey : KeyedBy env flow datagram)
  | bundled {flow : ChainKey} {bundle : Bundle} (hencode : env.encodeBundle bundle = some datagram)
      (hsome : bundle.members ≠ [])
      (hmembers : ∀ member ∈ bundle.members, Submitted env fw events flow member)
      (hkey : KeyedBy env flow datagram)

/-- Everything that waits was submitted. -/
def Sourced (events : List Event) (st : FwState) : Prop :=
  ∀ coal, st.coal = some coal → ∀ bk ∈ coal.buckets, ∀ member ∈ bk.members,
    Submitted env fw events bk.flow member

variable {env fw}

/-- One event keeps what waits sourced, and identifies all it queues. -/
theorem Event.step_identified (hdec : DecodeLaws env) (hfrag : FragmentLaws env)
    (hbundle : BundleLaws env) (hstamp : fw.stampSource = true) {events : List Event}
    {event : Event} (hevent : event ∈ events) (hopen : event.Open) {st : FwState}
    (hsourced : Sourced env fw events st) :
    Sourced env fw events (event.step env fw st) ∧
      ∃ new, (event.step env fw st).queue = st.queue ++ new ∧
        ∀ req ∈ new, Keyless env req.raw ∨ Identified env fw events req.raw := by
  cases event with
  | datagram raw src now cls =>
      obtain ⟨hcls, hready⟩ := hopen
      constructor
      · intro coal hcoal bk hbk member hmember
        rcases dispatchClass_coal hdec hfrag hcls raw with
          hsame | ⟨s, frame, f, hsrc, hframe, hdecode, hversion, hadded⟩
        · exact hsourced coal (hsame.symm.trans hcoal) bk hbk member hmember
        · rw [Event.step, hadded] at hcoal
          obtain ⟨earlier, hearlier, rfl⟩ := Option.map_eq_some_iff.mp hcoal
          obtain rfl := Option.some.inj hsrc
          rcases mem_addMember hbk hmember with ⟨rfl, hflow⟩ | ⟨old, hold, hflow, hwaited⟩
          · refine ⟨raw, src, now, cls, frame, f, hevent, hframe, hdecode, rfl, ?_⟩
            rw [hflow]
            exact .tx hframe hdecode hversion
          · rw [hflow]
            exact hsourced earlier hearlier old hold member hwaited
      · obtain ⟨new, hqueue, hnew⟩ := dispatchClass_keyed hdec hfrag hstamp hcls hready
        refine ⟨new, hqueue, ?_⟩
        intro req hreq
        rcases hnew req hreq with hkeyless | ⟨flow, hflow, hkey⟩
        · exact Or.inl hkeyless
        · exact Or.inr (.sent hevent hflow hkey)
  | flush =>
      cases hcoal : st.coal with
      | none =>
          have hstep : Event.flush.step env fw st = st := by
            rw [Event.step, flushCoalescedFw, hcoal]
          rw [hstep]
          exact ⟨hsourced, [], (List.append_nil _).symm, fun req hreq => by cases hreq⟩
      | some coal =>
          have hstep : Event.flush.step env fw st = { st with
              chains := (run (flushCoalesced env fw coal) st.chains).registry
              queue := st.queue ++ (run (flushCoalesced env fw coal) st.chains).outputs
              coal := some coal.reset } := by
            rw [Event.step, flushCoalescedFw, hcoal]
          rw [hstep]
          refine ⟨?_, _, rfl, ?_⟩
          · intro left hleft bk hbk
            obtain rfl := Option.some.inj hleft
            cases hbk
          · intro req hreq
            obtain ⟨bk, hbk, members, hsome, hmembers, seqNum, hencode⟩ :=
              mem_flushBuckets_outputs coal.maxMembers_pos hreq
            refine Or.inr (.bundled hencode hsome ?_ (hbundle.stamped hencode).1)
            intro member hmember
            exact hsourced coal hcoal bk hbk member (hmembers member hmember)

theorem life_identified (hdec : DecodeLaws env) (hfrag : FragmentLaws env)
    (hbundle : BundleLaws env) (hstamp : fw.stampSource = true) {all : List Event}
    {events : List Event} (hall : ∀ event ∈ events, event ∈ all)
    (hopen : ∀ event ∈ events, event.Open) {st : FwState} (hsourced : Sourced env fw all st) :
    ∃ new, (life env fw events st).queue = st.queue ++ new ∧
      ∀ req ∈ new, Keyless env req.raw ∨ Identified env fw all req.raw := by
  induction events generalizing st with
  | nil => exact ⟨[], (List.append_nil _).symm, fun req hreq => by cases hreq⟩
  | cons event rest ih =>
      obtain ⟨hkept, first, hfirst, hidentified⟩ := event.step_identified hdec hfrag hbundle
        hstamp (hall event List.mem_cons_self) (hopen event List.mem_cons_self) hsourced
      obtain ⟨later, hlater, hothers⟩ := ih
        (fun other hother => hall other (List.mem_cons_of_mem _ hother))
        (fun other hother => hopen other (List.mem_cons_of_mem _ hother)) hkept
      refine ⟨first ++ later, ?_, ?_⟩
      · rw [← List.append_assoc, ← hfirst, ← hlater]
        rfl
      · intro req hreq
        rcases List.mem_append.mp hreq with hreq | hreq
        · exact hidentified req hreq
        · exact hothers req hreq

end Runs

section Rekeyed

variable {env : Env} {fw : Forwarder} {raw : Bytes} {src : NetAddr} {now : Time} {st : FwState}

theorem framed_rekeyed (hsize : 48 ≤ raw.length) (key : UInt64) :
    framed (putUint64 raw 40 key) ↔ framed raw := by
  have hmagic : uint32At (putUint64 raw 40 key) 0 = uint32At raw 0 := by
    rw [uint32At, uint32At, field_putUint64_of_disjoint raw key hsize (Or.inl (by decide))]
  rw [framed, framed, length_putUint64 raw key hsize, hmagic]

theorem byteAt_rekeyed (hsize : 48 ≤ raw.length) (key : UInt64) {pos : Nat} (hpos : pos < 40) :
    byteAt (putUint64 raw 40 key) pos = byteAt raw pos :=
  byteAt_putUint64_of_disjoint raw key hsize (Or.inl hpos)

theorem versionByte_rekeyed (hsize : 48 ≤ raw.length) (key : UInt64) :
    versionByte (putUint64 raw 40 key) = versionByte raw := by
  rw [versionByte, versionByte, length_putUint64 raw key hsize,
    byteAt_rekeyed hsize key (by decide)]

/-- Stamping writes over the sender's HashKey. -/
theorem stampInPlace_rekeyed (hstamp : fw.stampSource = true) (hsize : 48 ≤ raw.length)
    (key : UInt64) (flow : ChainKey) :
    stampInPlace env fw (putUint64 raw 40 key) flow = stampInPlace env fw raw flow := by
  have hseq : uint64At (putUint64 raw 40 key) 48 = uint64At raw 48 :=
    uint64At_putUint64_of_disjoint raw key hsize (Or.inr (by decide))
  have hover : ∀ new, putUint64 (putUint64 raw 40 key) 40 new = putUint64 raw 40 new :=
    fun new => putUint64_putUint64_self raw key new hsize
  simp only [stampInPlace, hseq, hover, hstamp, or_true, ↓reduceIte]

theorem emitTx_rekeyed (hstamp : fw.stampSource = true) (hsize : 48 ≤ raw.length)
    (key : UInt64) {f : Frame} (hversion : f.version = frameVerV2) :
    emitTx env fw (putUint64 raw 40 key) f (some src) = emitTx env fw raw f (some src) := by
  funext st
  simp only [emitTx, hversion, ne_eq, not_true_eq_false, ↓reduceIte,
    stampInPlace_rekeyed hstamp hsize]

theorem processFrame_rekeyed (hdec : DecodeLaws env) (hkeys : HashKeyLaws env)
    (hstamp : fw.stampSource = true) (hsize : 48 ≤ raw.length)
    (hlegacy : versionByte raw ≠ some frameVerV1) (key : UInt64) :
    processFrame env fw (putUint64 raw 40 key) (some src) st =
      processFrame env fw raw (some src) st := by
  have hbyte : byteAt raw 6 ≠ frameVerV1 := by
    intro hversion
    rw [versionByte, if_pos (Nat.lt_of_lt_of_le (by decide) hsize), hversion] at hlegacy
    exact hlegacy rfl
  have hgates : txGates env fw (putUint64 raw 40 key) fw.verifyPayloadHash =
      txGates env fw raw fw.verifyPayloadHash := by
    rw [txGates, hkeys.decode hsize hbyte key, txGates]
  rw [processFrame, processFrame, process, process, hgates]
  cases htx : txGates env fw raw fw.verifyPayloadHash with
  | error drop => rw [Fw.gate_bind_error rfl, Fw.gate_bind_error rfl]
  | ok f =>
      have hdecode := txGates_ok htx
      have hversion : f.version = frameVerV2 := by
        refine (hdec.decode_version hdecode).resolve_left fun hold => hbyte ?_
        rw [hkeys.decode_byte6 hdecode, hold]
      rw [Fw.gate_bind_ok rfl, Fw.gate_bind_ok rfl, emitTx_rekeyed hstamp hsize key hversion]

theorem processAnchor_rekeyed (hkeys : HashKeyLaws env) (hstamp : fw.stampSource = true)
    (hsize : 48 ≤ raw.length) (key : UInt64) :
    processAnchor env fw (putUint64 raw 40 key) (some src) st =
      processAnchor env fw raw (some src) st := by
  simp only [processAnchor, anchorGates, hkeys.decodeAnchor hsize key, emitAnchor,
    stampInPlace_rekeyed hstamp hsize]

theorem emitBEEF_rekeyed (hstamp : fw.stampSource = true) (hsize : 48 ≤ raw.length)
    (key : UInt64) (bf : BEEFFrame) (groupIdx : UInt32) :
    emitBEEF env fw ⟨bf, groupIdx, putUint64 raw 40 key⟩ (some src) =
      emitBEEF env fw ⟨bf, groupIdx, raw⟩ (some src) := by
  simp only [emitBEEF, stampInPlace_rekeyed hstamp hsize]

theorem processBEEFFrame_rekeyed (hkeys : HashKeyLaws env) (hstamp : fw.stampSource = true)
    (hsize : 48 ≤ raw.length) (key : UInt64) :
    processBEEFFrame env fw (putUint64 raw 40 key) (some src) now st =
      processBEEFFrame env fw raw (some src) now st := by
  have hgates : beefGates env fw (putUint64 raw 40 key) (some src) =
      beefGates env fw raw (some src) := by
    rw [beefGates, hkeys.decodeBEEF hsize key, beefGates]
  simp only [processBEEFFrame, processBEEF, checkBEEF, hgates, Fw.bind_assoc]
  cases beefGates env fw raw (some src) with
  | error drop => rw [Fw.gate_bind_error rfl, Fw.gate_bind_error rfl]
  | ok passed =>
      obtain ⟨engine, bf, topics⟩ := passed
      rw [Fw.gate_bind_ok rfl, Fw.gate_bind_ok rfl]
      have hset : ∀ byte, (putUint64 raw 40 key).set 7 byte = putUint64 (raw.set 7 byte) 40 key :=
        fun byte => set_putUint64 raw byte key (by decide) hsize
      have hkept : ∀ byte, 48 ≤ (raw.set 7 byte).length := by
        intro byte
        rw [List.length_set]
        exact hsize
      simp only [setDeliverCount, hset, length_putUint64 _ key (hkept _),
        Fw.pure_bind, emitBEEF_rekeyed hstamp (hkept _)]

/-- With source stamping on, the HashKey a sender wrote changes nothing. -/
theorem dispatchClass_rekeyed (hdec : DecodeLaws env) (hkeys : HashKeyLaws env)
    (hstamp : fw.stampSource = true) {cls : IngressClass} (hcls : cls ≠ .privileged)
    (hframed : framed raw) (hsize : 48 ≤ raw.length)
    (hlegacy : versionByte raw ≠ some frameVerV1) (hbundle : ¬ IsBundle raw) (key : UInt64) :
    dispatchClass env fw (putUint64 raw 40 key) (some src) now cls st =
      dispatchClass env fw raw (some src) now cls st := by
  have hlabel : privilegedFrameType (putUint64 raw 40 key) = privilegedFrameType raw := by
    rw [privilegedFrameType, privilegedFrameType, length_putUint64 raw key hsize,
      byteAt_rekeyed hsize key (by decide), byteAt_rekeyed hsize key (by decide)]
  have h8 : versionByte raw ≠ some frameVerV8 := fun hversion => hbundle ⟨hframed, hversion⟩
  have hframed' := (framed_rekeyed hsize key).mpr hframed
  rw [dispatchClass, dispatchClass, versionByte_rekeyed hsize key,
    if_neg (not_not_intro hframed), if_neg (not_not_intro hframed')]
  simp only [if_pos hcls, if_neg h8, rejectPrivileged, hlabel]
  split_ifs
  · rfl
  · rfl
  · rfl
  · exact processAnchor_rekeyed hkeys hstamp hsize key
  · exact processBEEFFrame_rekeyed hkeys hstamp hsize key
  · rfl
  · exact processFrame_rekeyed hdec hkeys hstamp hsize hlegacy key

/-- Two events that differ at most in the HashKey the sender wrote. -/
inductive Event.Rekeyed : Event → Event → Prop where
  | same (event : Event) : Event.Rekeyed event event
  | key {raw : Bytes} {src : NetAddr} {now : Time} {cls : IngressClass} (hframed : framed raw)
      (hsize : 48 ≤ raw.length) (hlegacy : versionByte raw ≠ some frameVerV1) (key : UInt64) :
      Event.Rekeyed (.datagram raw src now cls) (.datagram (putUint64 raw 40 key) src now cls)

theorem life_rekeyed (hdec : DecodeLaws env) (hkeys : HashKeyLaws env)
    (hstamp : fw.stampSource = true) {events rekeyed : List Event}
    (hrekeyed : List.Forall₂ Event.Rekeyed events rekeyed)
    (hopen : ∀ event ∈ events, event.Open) (st : FwState) :
    life env fw rekeyed st = life env fw events st := by
  induction hrekeyed generalizing st with
  | nil => rfl
  | @cons event other rest others hfirst _ ih =>
      have hstep : other.step env fw st = event.step env fw st := by
        cases hfirst with
        | same => rfl
        | key hframed hsize hlegacy key =>
            obtain ⟨hcls, hbundle⟩ := hopen _ List.mem_cons_self
            rw [Event.step, Event.step, dispatchClass_rekeyed hdec hkeys hstamp hcls hframed
              hsize hlegacy hbundle key]
      have hrest := ih (fun later hlater => hopen later (List.mem_cons_of_mem _ hlater))
        (event.step env fw st)
      rw [life, List.foldl_cons, hstep]
      exact hrest

end Rekeyed

section Identity

variable (env : Env) (fw : Forwarder)

/-- Source identity on the open sockets.  What a dispatch queues is keyed by a
flow of its source; so is all that leaves during a worker's life, bundles
included.  The HashKeys senders write do not change anything, and as long as the
HashKeys of the flows in use are distinct, a datagram keyed by a flow comes from
that flow's source. -/
structure SourceIdentity : Prop where
  dispatched : ∀ {raw : Bytes} {src : NetAddr} {now : Time} {cls : IngressClass} {st : FwState},
    cls ≠ .privileged → ¬ IsBundle raw →
      ∃ new, (dispatchClass env fw raw (some src) now cls st).2.queue = st.queue ++ new ∧
        ∀ req ∈ new, Keyless env req.raw ∨
          ∃ flow, FlowOf env fw raw src flow ∧ KeyedBy env flow req.raw
  lived : ∀ {events : List Event} {st : FwState}, (∀ event ∈ events, event.Open) →
    (∀ coal, st.coal = some coal → coal.buckets = []) →
      ∃ new, (life env fw events st).queue = st.queue ++ new ∧
        ∀ req ∈ new, Keyless env req.raw ∨ Identified env fw events req.raw
  blind : ∀ {events rekeyed : List Event} (st : FwState), (∀ event ∈ events, event.Open) →
    List.Forall₂ Event.Rekeyed events rekeyed →
      life env fw rekeyed st = life env fw events st
  unforged : ∀ {flows : Set ChainKey} {events : List Event} {datagram : Bytes},
    Set.InjOn env.hashKey flows →
    (∀ raw src now cls flow, .datagram raw src now cls ∈ events →
      FlowOf env fw raw src flow → flow ∈ flows) →
    Identified env fw events datagram → ∀ victim ∈ flows, KeyedBy env victim datagram →
      ∃ raw src now cls, .datagram raw src now cls ∈ events ∧ addrToIPv6 src = victim.ip

variable {env fw}

/-- A datagram keyed by a flow comes from the flow's source. -/
theorem Identified.source {flows : Set ChainKey} (hinj : Set.InjOn env.hashKey flows)
    {events : List Event} (hflows : ∀ raw src now cls flow,
      Event.datagram raw src now cls ∈ events → FlowOf env fw raw src flow → flow ∈ flows)
    {datagram : Bytes} (hidentified : Identified env fw events datagram) {victim : ChainKey}
    (hvictim : victim ∈ flows) (hkeyed : KeyedBy env victim datagram) :
    ∃ raw src now cls, .datagram raw src now cls ∈ events ∧ addrToIPv6 src = victim.ip := by
  cases hidentified with
  | @sent raw src now cls flow hevent hflow hkey =>
      have hsame : flow = victim :=
        hinj (hflows raw src now cls flow hevent hflow) hvictim (hkey.symm.trans hkeyed)
      exact ⟨raw, src, now, cls, hevent, by rw [← hflow.ip, hsame]⟩
  | @bundled flow bundle _ hsome hmembers hkey =>
      obtain ⟨member, hmember⟩ := List.exists_mem_of_ne_nil _ hsome
      obtain ⟨raw, src, now, cls, frame, f, hevent, _, _, _, hflow⟩ := hmembers member hmember
      have hsame : flow = victim :=
        hinj (hflows raw src now cls flow hevent hflow) hvictim (hkey.symm.trans hkeyed)
      exact ⟨raw, src, now, cls, hevent, by rw [← hflow.ip, hsame]⟩

/-- With source stamping on, the source is the identity. -/
theorem source_identity (hdec : DecodeLaws env) (hfrag : FragmentLaws env)
    (hbundle : BundleLaws env) (hkeys : HashKeyLaws env) (hstamp : fw.stampSource = true) :
    SourceIdentity env fw where
  dispatched hcls hraw := dispatchClass_keyed hdec hfrag hstamp hcls hraw
  lived := by
    intro events st hopen hempty
    refine life_identified hdec hfrag hbundle hstamp (fun _ hevent => hevent) hopen ?_
    intro coal hcoal bk hbk
    rw [hempty coal hcoal] at hbk
    cases hbk
  blind st hopen hrekeyed := life_rekeyed hdec hkeys hstamp hrekeyed hopen st
  unforged hinj hflows hidentified _ hvictim hkeyed :=
    hidentified.source hinj hflows hvictim hkeyed

end Identity

section Sample

open Reference

def stampingForwarder : Forwarder :=
  { forwarder with stampSource := true }

theorem source_identity_sample :
    stampingForwarder.stampSource = true ∧ SourceIdentity Reference.env stampingForwarder :=
  ⟨rfl, source_identity decodeLaws fragmentLaws bundleLaws hashKeyLaws rfl⟩

/-- A bundle without members under a HashKey, for group 5. -/
def keyedBundle (hashKey : UInt64) : Bytes :=
  [leading frameVerV8 0, List.replicate 32 0, spellNat 8 hashKey.toNat, spellNat 8 1,
    spellNat 2 5, List.replicate 8 0].flatten

/-- The flow of group 5 and no subtree from a host. -/
def hostFlow (host : UInt8) : ChainKey :=
  ⟨addrToIPv6 (source host), 5, zeroHash⟩

/-- A bundle relayed for one host keeps the HashKey of another host's flow. -/
theorem keyedBundle_impersonates :
    ∃ req, (dispatchClass Reference.env stampingForwarder
        (keyedBundle (Reference.env.hashKey (hostFlow 2))) (some (source 1)) 0 .transaction
        state).2.queue = [req] ∧
      KeyedBy Reference.env (hostFlow 2) req.raw ∧
      ¬ KeyedBy Reference.env (hostFlow 1) req.raw := by
  rw [dispatchClass_bundle (by decide +kernel) (by decide +kernel) (by decide)
    (by decide +kernel)]
  refine ⟨_, rfl, ?_, ?_⟩
  · rw [KeyedBy]
    decide +kernel
  · rw [KeyedBy]
    decide +kernel

end Sample

end ShardProxy
