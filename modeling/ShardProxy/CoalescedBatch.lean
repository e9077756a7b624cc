/-
A receive batch with coalescing and without.  Small transactions of a flow
wait in the worker's buffer until the batch ends and leave as bundles; with
coalescing off each leaves by itself.  Taken apart again, the bundles and the
datagrams sent on the way are what the batch sends without coalescing, SeqNums
left aside: nothing is lost, doubled or left behind, and a flow's members keep
their order.  A member whose length does not fit the sixteen bits a bundle has
for it is the exception.
-/
import ShardProxy.Settling

namespace ShardProxy

open ByteField Dispenser

/-- A datagram of a receive batch. -/
structure Received where
  raw : Bytes
  src : NetAddr
  now : Time
  cls : IngressClass

/-- What a queued datagram delivers, its SeqNum left aside: a transaction of a
sender in a group, or anything else as it is addressed. -/
inductive Parcel where
  | tx (sender : IPv6) (group : UInt32) (subtree : Hash32) (payload : Bytes)
      (txID : Option Hash32)
  | other (req : EnqueueReq)
deriving DecidableEq

/-- A queued bundle with the flow its members are of. -/
structure SentBundle where
  flow : ChainKey
  bundle : Bundle
  req : EnqueueReq

/-- The same configuration with coalescing switched off. -/
def Forwarder.withoutCoalescing (fw : Forwarder) : Forwarder :=
  { fw with coalesce := false }

/-- The member cap of a bundle: the configured one, or the count field's limit
when none or a larger one is configured. -/
def Forwarder.memberCap (fw : Forwarder) : Nat :=
  if 0 < fw.coalesceMaxMembers ∧ fw.coalesceMaxMembers ≤ bundleMaxMembers then
    fw.coalesceMaxMembers.toNat
  else bundleMaxMembers

/-- A worker that coalesces and one that does not, at the start of a batch. -/
def FwState.armed (fw : Forwarder) (st : FwState) : FwState :=
  { st with coal := some (newCoalBuffer fw.coalesceMaxMembers) }

def FwState.unarmed (st : FwState) : FwState :=
  { st with coal := none }

section Batch

variable (env : Env) (fw : Forwarder)

def Received.dispatch (d : Received) : Fw Unit :=
  dispatchClass env fw d.raw (some d.src) d.now d.cls

def receive : List Received → FwState → FwState
  | [], st => st
  | d :: rest, st => receive rest (d.dispatch env fw st).2

/-- TxIDs are delivered where members carry them. -/
def Forwarder.shownTxID (id : Hash32) : Option Hash32 :=
  if fw.coalesceCarryTxid then some id else none

def parcelOf (sender : IPv6) (req : EnqueueReq) : Parcel :=
  match env.decode req.raw with
  | some f =>
      if f.version = frameVerV2 then
        .tx sender req.groupIdx f.subtreeID f.payload (fw.shownTxID f.txID)
      else .other req
  | none => .other { req with raw := putUint64 req.raw 48 0 }

/-- What the datagrams deliver that a batch queues on the way. -/
def parcels : List Received → FwState → List Parcel
  | [], _ => []
  | d :: rest, st =>
      ((d.dispatch env fw st).2.queue.drop st.queue.length).map
          (parcelOf env fw (addrToIPv6 d.src)) ++
        parcels rest (d.dispatch env fw st).2

def Member.parcel (flow : ChainKey) (member : Member) : Parcel :=
  .tx flow.ip flow.grp flow.sub member.tx (fw.shownTxID member.txID)

/-- What a bundle delivers, member by member. -/
def SentBundle.parcels (sent : SentBundle) : List Parcel :=
  sent.bundle.members.map (Member.parcel fw sent.flow)

/-- A queued bundle is what it should be: it decodes, its header names its flow
and it goes to the flow's group, and it is within its count and its budget. -/
structure SentBundle.Sound (decodeBundle : Bytes → Option Bundle) (sent : SentBundle) :
    Prop where
  decodes : decodeBundle sent.req.raw = some sent.bundle
  hashKey : sent.bundle.hashKey = env.hashKey sent.flow
  group : sent.bundle.groupIdx.toUInt32 = sent.flow.grp
  subtree : sent.bundle.subtreeID = sent.flow.sub
  queued : sent.req = enqueueData sent.req.raw (fw.addrFor sent.flow.grp) sent.flow.grp
  nonempty : 1 ≤ sent.bundle.members.length
  count : sent.bundle.members.length ≤ fw.memberCap
  size : (sent.req.raw.length : Int) ≤ fw.coalesceBudget

/-- Coalescing loses, doubles and strands nothing of a batch.  The members of
the bundles and the datagrams sent on the way are those of the batch without
coalescing; a flow's members are in dispatch order across its bundles; and the
buffer is empty after the flush. -/
structure Preserved (decodeBundle : Bytes → Option Bundle) (batch : List Received)
    (st : FwState) : Prop where
  kept : ∃ bundles : List SentBundle,
    (flushCoalescedFw env fw (receive env fw batch (st.armed fw))).2.queue =
        (receive env fw batch (st.armed fw)).queue ++ bundles.map SentBundle.req ∧
      (∀ sent ∈ bundles, sent.Sound env fw decodeBundle) ∧
      (parcels env fw batch (st.armed fw) ++ bundles.flatMap (SentBundle.parcels fw)).Perm
        (parcels env fw.withoutCoalescing batch st.unarmed) ∧
      ∀ flow, ((bundles.filter (·.flow = flow)).flatMap (SentBundle.parcels fw)).Sublist
        (parcels env fw.withoutCoalescing batch st.unarmed)
  emptied : (flushCoalescedFw env fw (receive env fw batch (st.armed fw))).2.coal =
    some (newCoalBuffer fw.coalesceMaxMembers)

/-- A payload small enough to wait for a bundle. -/
def Eligible (payload : Bytes) : Prop :=
  ¬ fw.fragments payload ∧
    ((bundleHeaderSize + env.memberOverhead fw.coalesceCarryTxid + payload.length : Nat) : Int) ≤
      fw.coalesceBudget

/-- The datagram is no transaction that waits and is too long for a member. -/
def Received.Encodable (d : Received) : Prop :=
  ∀ frame f, TxFrame env fw d.raw frame → env.decode frame = some f →
    f.version = frameVerV2 → Eligible env fw f.payload → f.payload.length < 2 ^ 16

end Batch

section Switch

variable (env : Env) (fw : Forwarder)

theorem fragmentWith_withoutCoalescing (plan : FragPlan) :
    fragmentWith env fw.withoutCoalescing plan = fragmentWith env fw plan := by
  have hloop : ∀ k indices, fragmentLoop env fw.withoutCoalescing plan k indices =
      fragmentLoop env fw plan k indices := by
    intro k indices
    induction indices with
    | nil => rfl
    | cons i rest ih =>
        rw [fragmentLoop, fragmentLoop, ih]
        rfl
  rw [fragmentWith, fragmentWith, hloop]
  rfl

theorem processBEEF_withoutCoalescing (raw : Bytes) (src : Option NetAddr) (now : Time)
    (checkContentID : Bool) :
    processBEEF env fw.withoutCoalescing raw src now checkContentID =
      processBEEF env fw raw src now checkContentID := by
  simp only [processBEEF, emitBEEF, fragmentBEEF, fragmentWith_withoutCoalescing]
  rfl

/-- Without a buffer the switch is not read. -/
theorem emitTx_withoutCoalescing (raw : Bytes) (f : Frame) (src : Option NetAddr) {st : FwState}
    (hcoal : st.coal = none) :
    emitTx env fw.withoutCoalescing raw f src st = emitTx env fw raw f src st := by
  have hnever : ∀ fw : Forwarder, ¬ coalesces env fw st f.payload := by
    rintro fw ⟨_, hsome, _⟩
    rw [hcoal] at hsome
    cases hsome
  simp only [emitTx, fragment, fragmentWith_withoutCoalescing, hnever, ↓reduceIte]
  rfl

theorem bind_withoutBuffer {A : Type} {R : A → Prop} {x : Fw A} (hx : LedgerOnly x R)
    {left right : A → Fw Unit}
    (hnext : ∀ a, ∀ st : FwState, st.coal = none → left a st = right a st) {st : FwState}
    (hcoal : st.coal = none) : (x >>= left) st = (x >>= right) st := by
  obtain ⟨result, after, _, hrun⟩ := hx st.ledger
  have hstep := hrun st rfl
  cases result with
  | error drop => rw [Fw.bind_of_error hstep, Fw.bind_of_error hstep]
  | ok a =>
      rw [Fw.bind_of_ok hstep, Fw.bind_of_ok hstep]
      exact hnext a (st.withLedger after) hcoal

theorem process_withoutCoalescing (raw : Bytes) (src : Option NetAddr) (verify : Bool)
    {st : FwState} (hcoal : st.coal = none) :
    process env fw.withoutCoalescing raw src verify st = process env fw raw src verify st := by
  refine bind_withoutBuffer (LedgerOnly.gate (txGates env fw raw verify)) ?_ hcoal
  intro f st hcoal
  by_cases hversion : f.version = frameVerV2
  · simp only [hversion, ↓reduceIte]
    exact bind_withoutBuffer (LedgerOnly.claim fw.txDedup f.txID "brc124")
      (fun _ st hcoal => emitTx_withoutCoalescing env fw raw f src hcoal) hcoal
  · simp only [hversion, ↓reduceIte]
    exact emitTx_withoutCoalescing env fw raw f src hcoal

theorem Entry.run_withoutCoalescing (point : Entry) (src : Option NetAddr) (now : Time)
    {st : FwState} (hcoal : st.coal = none) :
    point.run env fw.withoutCoalescing src now st = point.run env fw src now st := by
  cases point with
  | process raw => exact process_withoutCoalescing env fw raw src _ hcoal
  | bareTx tx =>
      exact bind_withoutBuffer (LedgerOnly.gate (bareTxGates env fw tx))
        (fun framing st hcoal => process_withoutCoalescing env fw framing src false hcoal) hcoal
  | block raw =>
      simp only [Entry.run, processBlock, emitBlock, fragmentBlock,
        fragmentWith_withoutCoalescing]
      rfl
  | subtreeData raw =>
      simp only [Entry.run, processSubtreeData, emitSubtreeData, fragmentSubtreeData,
        fragmentWith_withoutCoalescing]
      rfl
  | anchor raw => rfl
  | beef raw => simp only [Entry.run, processBEEFFrame, processBEEF_withoutCoalescing]
  | dispatchBEEF p =>
      simp only [Entry.run, ShardProxy.dispatchBEEF, processBEEF_withoutCoalescing]
  | admitBEEF p => rfl

theorem dispatch_withoutCoalescing (d : Received) {st : FwState} (hcoal : st.coal = none) :
    d.dispatch env fw.withoutCoalescing st = d.dispatch env fw st := by
  have hroute : route env fw.withoutCoalescing d.raw (some d.src) d.cls =
      route env fw d.raw (some d.src) d.cls := rfl
  rw [Received.dispatch, Received.dispatch, dispatchClass_eq_route, dispatchClass_eq_route, hroute]
  cases route env fw d.raw (some d.src) d.cls with
  | entry point => exact point.run_withoutCoalescing env fw (some d.src) d.now hcoal
  | bundle => rfl
  | refuse drop => rfl

end Switch

section Waiting

variable (fw : Forwarder)

/-- What the waiting members of a buffer will deliver. -/
def waiting (buckets : List CoalBucket) : List Parcel :=
  buckets.flatMap fun bk => bk.members.map (Member.parcel fw bk.flow)

/-- What those of one flow will. -/
def waitingOf (flow : ChainKey) (buckets : List CoalBucket) : List Parcel :=
  waiting fw (buckets.filter (·.flow = flow))

theorem CoalBucket.flow_eq_iff {bk : CoalBucket} {flow : ChainKey} :
    bk.flow = flow ↔ bk.group = flow.grp ∧ bk.ip = flow.ip ∧ bk.subtree = flow.sub := by
  cases flow
  simp only [CoalBucket.flow, ChainKey.mk.injEq]
  tauto

theorem waiting_addMember (flow : ChainKey) (member : Member) (buckets : List CoalBucket) :
    (waiting fw (addMember flow member buckets)).Perm
      (waiting fw buckets ++ [member.parcel fw flow]) := by
  induction buckets with
  | nil => exact List.Perm.refl _
  | cons bk rest ih =>
      rw [addMember]
      split
      · rename_i hmatch
        have hflow := CoalBucket.flow_eq_iff.mpr hmatch
        simp only [waiting, List.flatMap_cons, List.map_append, List.map_cons, List.map_nil,
          CoalBucket.flow] at hflow ⊢
        rw [hflow, List.append_assoc, List.append_assoc]
        exact List.Perm.append_left _ List.perm_append_comm
      · simp only [waiting, List.flatMap_cons, List.append_assoc] at ih ⊢
        exact List.Perm.append_left _ ih

theorem flows_addMember {flow : ChainKey} {member : Member} {buckets : List CoalBucket}
    (hnodup : (buckets.map CoalBucket.flow).Nodup) :
    ((addMember flow member buckets).map CoalBucket.flow).Nodup := by
  induction buckets with
  | nil => exact List.nodup_singleton _
  | cons bk rest ih =>
      rw [List.map_cons, List.nodup_cons] at hnodup
      rw [addMember]
      split
      · exact List.nodup_cons.mpr hnodup
      · rename_i hother
        rw [List.map_cons, List.nodup_cons]
        refine ⟨?_, ih hnodup.2⟩
        intro hmem
        obtain ⟨later, hlater, hsame⟩ := List.mem_map.mp hmem
        rcases flow_mem_addMember hlater with hnew | ⟨old, hold, hflow⟩
        · exact hother (CoalBucket.flow_eq_iff.mp (hsame.symm.trans hnew))
        · exact hnodup.1 (List.mem_map.mpr ⟨old, hold, (hsame.symm.trans hflow).symm⟩)

theorem waitingOf_cons (key : ChainKey) (bk : CoalBucket) (rest : List CoalBucket) :
    waitingOf fw key (bk :: rest) =
      (if bk.flow = key then bk.members.map (Member.parcel fw bk.flow) else []) ++
        waitingOf fw key rest := by
  by_cases hkey : bk.flow = key <;> simp [waitingOf, waiting, hkey]

theorem waitingOf_eq_nil {flow : ChainKey} {buckets : List CoalBucket}
    (hnone : flow ∉ buckets.map CoalBucket.flow) : waitingOf fw flow buckets = [] := by
  have hempty : buckets.filter (·.flow = flow) = [] := by
    apply List.filter_eq_nil_iff.mpr
    intro bk hbk hflow
    exact hnone (List.mem_map.mpr ⟨bk, hbk, of_decide_eq_true hflow⟩)
  rw [waitingOf, hempty]
  rfl

/-- A new member comes after the members of its flow, and touches no other. -/
theorem waitingOf_addMember (key flow : ChainKey) (member : Member) {buckets : List CoalBucket}
    (hnodup : (buckets.map CoalBucket.flow).Nodup) :
    waitingOf fw key (addMember flow member buckets) =
      waitingOf fw key buckets ++ if flow = key then [member.parcel fw flow] else [] := by
  induction buckets with
  | nil =>
      rw [addMember, waitingOf_cons]
      by_cases hkey : flow = key <;> simp [waitingOf, waiting, CoalBucket.flow, hkey]
  | cons bk rest ih =>
      rw [List.map_cons, List.nodup_cons] at hnodup
      rw [addMember]
      split
      · rename_i hmatch
        obtain rfl : bk.flow = flow := CoalBucket.flow_eq_iff.mpr hmatch
        have hsame : ∀ members, ({ bk with members := members } : CoalBucket).flow = bk.flow :=
          fun _ => rfl
        rw [waitingOf_cons, waitingOf_cons, hsame]
        by_cases hkey : bk.flow = key
        · subst hkey
          simp [waitingOf_eq_nil fw hnodup.1]
        · simp [hkey]
      · rw [waitingOf_cons, waitingOf_cons, ih hnodup.2, List.append_assoc]

end Waiting

section Flush

variable {env : Env} {fw : Forwarder} {decodeBundle : Bytes → Option Bundle}

/-- A member that is eligible and whose length a bundle can say. -/
structure Fits (env : Env) (fw : Forwarder) (member : Member) : Prop where
  budget : ((bundleHeaderSize + env.memberOverhead fw.coalesceCarryTxid + member.tx.length :
    Nat) : Int) ≤ fw.coalesceBudget
  short : member.tx.length < 2 ^ 16

/-- A buffer between dispatches: one bucket a flow, groups as wide as a bundle
can say, and members that fit. -/
structure CoalBuffer.Sound (env : Env) (fw : Forwarder) (coal : CoalBuffer) : Prop where
  cap : coal.maxMembers = fw.memberCap
  flows : (coal.buckets.map CoalBucket.flow).Nodup
  groups : ∀ bk ∈ coal.buckets, bk.group.toNat < 2 ^ 16
  fits : ∀ bk ∈ coal.buckets, ∀ member ∈ bk.members, Fits env fw member

theorem newCoalBuffer_maxMembers (fw : Forwarder) :
    (newCoalBuffer fw.coalesceMaxMembers).maxMembers = fw.memberCap := by
  rw [newCoalBuffer, Forwarder.memberCap]
  split
  · rename_i hout
    rw [if_neg (by omega)]
  · rename_i hin
    rw [if_pos (by omega)]

theorem newCoalBuffer_buckets (maxMembers : Int) : (newCoalBuffer maxMembers).buckets = [] := by
  rw [newCoalBuffer]
  split <;> rfl

theorem CoalBuffer.Sound.new (env : Env) (fw : Forwarder) :
    (newCoalBuffer fw.coalesceMaxMembers).Sound env fw := by
  have hempty := newCoalBuffer_buckets fw.coalesceMaxMembers
  refine ⟨newCoalBuffer_maxMembers fw, ?_, ?_, ?_⟩ <;> rw [hempty]
  · exact List.nodup_nil
  · intro bk hbk
    cases hbk
  · intro bk hbk
    cases hbk

theorem CoalBuffer.Sound.reset {coal : CoalBuffer} (hsound : coal.Sound env fw) :
    coal.reset.Sound env fw := by
  refine ⟨hsound.cap, List.nodup_nil, ?_, ?_⟩ <;>
    · intro bk hbk
      cases hbk

theorem CoalBuffer.Sound.add {coal : CoalBuffer} (hsound : coal.Sound env fw) {flow : ChainKey}
    {member : Member} (hgroup : flow.grp.toNat < 2 ^ 16) (hfits : Fits env fw member) :
    (coal.add flow member).Sound env fw where
  cap := hsound.cap
  flows := flows_addMember hsound.flows
  groups := by
    intro bk hbk
    rcases flow_mem_addMember hbk with hnew | ⟨old, hold, hflow⟩
    · rw [show bk.group = flow.grp from congrArg ChainKey.grp hnew]
      exact hgroup
    · rw [show bk.group = old.group from congrArg ChainKey.grp hflow]
      exact hsound.groups old hold
  fits := by
    intro bk hbk found hfound
    rcases mem_addMember hbk hfound with ⟨rfl, _⟩ | ⟨old, hold, _, hwaited⟩
    · exact hfits
    · exact hsound.fits old hold found hwaited

theorem carriesTxIDs_bundleOf (bk : CoalBucket) (members : List Member)
    (hashKey seqNum : UInt64) :
    (bundleOf fw bk members hashKey seqNum).carriesTxIDs = fw.coalesceCarryTxid := by
  cases hcarry : fw.coalesceCarryTxid <;>
    simp [Bundle.carriesTxIDs, bundleOf, hcarry, flagTxIDsPresent]

/-- Members deliver the same with the TxIDs left out that are not shown. -/
theorem parcels_onWire (bk : CoalBucket) (members : List Member) (hashKey seqNum : UInt64) :
    (bundleOf fw bk members hashKey seqNum).onWire.members.map (Member.parcel fw bk.flow) =
      members.map (Member.parcel fw bk.flow) := by
  rw [Bundle.onWire, carriesTxIDs_bundleOf]
  cases hcarry : fw.coalesceCarryTxid with
  | true => rfl
  | false =>
      simp only [Bool.false_eq_true, ↓reduceIte, bundleOf, List.map_map]
      apply List.map_congr_left
      intro member _
      simp [Member.parcel, Forwarder.shownTxID, hcarry]

theorem SentBundle.sound_of_encode (hcodec : BundleCodec env decodeBundle) {bk : CoalBucket}
    (hgroup : bk.group.toNat < 2 ^ 16) {members : List Member} (hne : members ≠ [])
    (hcount : members.length ≤ fw.memberCap)
    (hsize : ((bundleHeaderSize +
      membersSize (env.memberOverhead fw.coalesceCarryTxid) members : Nat) : Int) ≤
        fw.coalesceBudget) {seqNum : UInt64} {datagram : Bytes}
    (hencode : env.encodeBundle (bundleOf fw bk members (env.hashKey bk.flow) seqNum) =
      some datagram) :
    SentBundle.Sound env fw decodeBundle ⟨bk.flow,
      (bundleOf fw bk members (env.hashKey bk.flow) seqNum).onWire,
      enqueueData datagram (fw.addrFor bk.group) bk.group⟩ := by
  have hlength : (bundleOf fw bk members (env.hashKey bk.flow) seqNum).onWire.members.length =
      members.length := by
    rw [← List.length_map (Member.parcel fw bk.flow), parcels_onWire, List.length_map]
  have hheader : ∀ bundle : Bundle, bundle.onWire.hashKey = bundle.hashKey ∧
      bundle.onWire.groupIdx = bundle.groupIdx ∧ bundle.onWire.subtreeID = bundle.subtreeID := by
    intro bundle
    rw [Bundle.onWire]
    split <;> exact ⟨rfl, rfl, rfl⟩
  obtain ⟨hkey, hidx, hsub⟩ := hheader (bundleOf fw bk members (env.hashKey bk.flow) seqNum)
  refine ⟨hcodec.decode hencode, hkey, ?_, hsub, rfl, ?_, ?_, ?_⟩
  · rw [hidx]
    apply UInt32.toNat_inj.mp
    simp only [bundleOf, UInt16.toNat_toUInt32, UInt32.toNat_toUInt16]
    exact Nat.mod_eq_of_lt hgroup
  · rw [hlength]
    exact List.length_pos_iff.mpr hne
  · rw [hlength]
    exact hcount
  · have hbytes := hcodec.length hencode
    rw [carriesTxIDs_bundleOf] at hbytes
    change (datagram.length : Int) ≤ _
    rw [hbytes]
    exact hsize

/-- What the bundles of one bucket must keep to for all of them to be queued. -/
structure Packable (env : Env) (fw : Forwarder) (members : List Member) : Prop where
  nonempty : members ≠ []
  count : members.length ≤ fw.memberCap
  size : ((bundleHeaderSize +
    membersSize (env.memberOverhead fw.coalesceCarryTxid) members : Nat) : Int) ≤
      fw.coalesceBudget
  short : ∀ member ∈ members, member.tx.length < 2 ^ 16

theorem memberCap_le (fw : Forwarder) : fw.memberCap ≤ bundleMaxMembers := by
  rw [Forwarder.memberCap]
  split
  · omega
  · exact Nat.le_refl _

theorem flushBundles_sent (hcodec : BundleCodec env decodeBundle) (hlaws : BundleLaws env)
    {bk : CoalBucket} (hgroup : bk.group.toNat < 2 ^ 16) {bundles : List (List Member)}
    (hpack : ∀ members ∈ bundles, Packable env fw members) (chains : Chains) :
    ∃ sent : List SentBundle,
      (run (flushBundles env fw bk bundles) chains).outputs = sent.map SentBundle.req ∧
        (∀ one ∈ sent, one.Sound env fw decodeBundle ∧ one.flow = bk.flow) ∧
        sent.flatMap (SentBundle.parcels fw) =
          bundles.flatten.map (Member.parcel fw bk.flow) := by
  induction bundles generalizing chains with
  | nil => exact ⟨[], rfl, by simp, rfl⟩
  | cons members rest ih =>
      have hfirst := hpack members List.mem_cons_self
      have hcount : (bundleOf fw bk members (env.hashKey bk.flow)
          (lastSeq chains bk.flow + 1)).members.length ≤ bundleMaxMembers :=
        Nat.le_trans hfirst.count (memberCap_le fw)
      obtain ⟨datagram, hencode⟩ := hlaws.encode _ hcount hfirst.short
      obtain ⟨sent, houtputs, hsound, hparcels⟩ :=
        ih (fun later hlater => hpack later (List.mem_cons_of_mem members hlater))
          (advance chains bk.flow 1)
      have hnew := SentBundle.sound_of_encode hcodec hgroup hfirst.nonempty hfirst.count
        hfirst.size hencode
      refine ⟨⟨bk.flow, (bundleOf fw bk members (env.hashKey bk.flow)
        (lastSeq chains bk.flow + 1)).onWire,
        enqueueData datagram (fw.addrFor bk.group) bk.group⟩ :: sent, ?_, ?_, ?_⟩
      · simp only [flushBundles, run_bind, run_nextSeq, List.nil_append, hencode, sendEncoded,
          run_send, houtputs]
        rfl
      · intro one hone
        rcases List.mem_cons.mp hone with rfl | hlater
        · exact ⟨hnew, rfl⟩
        · exact hsound one hlater
      · rw [List.flatMap_cons, hparcels, List.flatten_cons, List.map_append]
        exact congrArg (· ++ _) (parcels_onWire bk members _ _)

theorem bundleBudget_of_fits {member : Member} (hfits : Fits env fw member) :
    fw.bundleBudget = fw.coalesceBudget := by
  have hbudget := hfits.budget
  simp only [bundleHeaderSize] at hbudget
  rw [Forwarder.bundleBudget, if_neg (by omega)]

/-- The bundles of a sound buffer's bucket can all be queued. -/
theorem CoalBuffer.Sound.packable {coal : CoalBuffer} (hsound : coal.Sound env fw)
    {bk : CoalBucket} (hbk : bk ∈ coal.buckets) {members : List Member}
    (hmembers : members ∈ packBundles (env.memberOverhead fw.coalesceCarryTxid)
      fw.bundleBudget coal.maxMembers bk.members.length bk.members) :
    Packable env fw members := by
  have hmem : ∀ member ∈ members, Fits env fw member := by
    intro member hmember
    exact hsound.fits bk hbk member (mem_of_mem_packBundles coal.maxMembers_pos hmembers hmember)
  have hne := ne_nil_of_mem_packBundles coal.maxMembers_pos hmembers
  obtain ⟨first, hfirst⟩ := List.exists_mem_of_ne_nil members hne
  rw [bundleBudget_of_fits (hmem first hfirst)] at hmembers
  obtain ⟨hcount, hsize⟩ := packBundles_bounded coal.maxMembers_pos
    (fun member hmember => (hsound.fits bk hbk member hmember).budget) hmembers
  exact ⟨hne, hsound.cap ▸ hcount, hsize, fun member hmember => (hmem member hmember).short⟩

theorem flatMap_filter_flow {sent : List SentBundle} {own : ChainKey}
    (hflow : ∀ one ∈ sent, one.flow = own) (flow : ChainKey) :
    (sent.filter (·.flow = flow)).flatMap (SentBundle.parcels fw) =
      if own = flow then sent.flatMap (SentBundle.parcels fw) else [] := by
  split
  · rename_i hsame
    rw [List.filter_eq_self.mpr]
    intro one hone
    exact decide_eq_true ((hflow one hone).trans hsame)
  · rename_i hother
    rw [List.filter_eq_nil_iff.mpr]
    · rfl
    · intro one hone hkey
      exact hother ((hflow one hone).symm.trans (of_decide_eq_true hkey))

/-- Flushing a sound buffer queues its members and nothing else, flow by flow in
their order. -/
theorem flushBuckets_sent (hcodec : BundleCodec env decodeBundle) (hlaws : BundleLaws env)
    {maxMembers : Nat} (hmax : 0 < maxMembers) {buckets : List CoalBucket}
    (hgroups : ∀ bk ∈ buckets, bk.group.toNat < 2 ^ 16)
    (hpack : ∀ bk ∈ buckets, ∀ members ∈ packBundles (env.memberOverhead fw.coalesceCarryTxid)
      fw.bundleBudget maxMembers bk.members.length bk.members, Packable env fw members)
    (chains : Chains) :
    ∃ sent : List SentBundle,
      (run (flushBuckets env fw maxMembers buckets) chains).outputs = sent.map SentBundle.req ∧
        (∀ one ∈ sent, one.Sound env fw decodeBundle) ∧
        sent.flatMap (SentBundle.parcels fw) = waiting fw buckets ∧
        ∀ flow, (sent.filter (·.flow = flow)).flatMap (SentBundle.parcels fw) =
          waitingOf fw flow buckets := by
  induction buckets generalizing chains with
  | nil => exact ⟨[], rfl, by simp, rfl, fun _ => rfl⟩
  | cons bk rest ih =>
      obtain ⟨first, hfirst, hsound, hparcels⟩ := flushBundles_sent hcodec hlaws
        (hgroups bk List.mem_cons_self) (hpack bk List.mem_cons_self) chains
      obtain ⟨later, hlater, hothers, hall, hflows⟩ :=
        ih (fun bk hbk => hgroups bk (List.mem_cons_of_mem _ hbk))
          (fun bk hbk => hpack bk (List.mem_cons_of_mem _ hbk))
          (run (flushBundles env fw bk (packBundles (env.memberOverhead fw.coalesceCarryTxid)
            fw.bundleBudget maxMembers bk.members.length bk.members)) chains).registry
      rw [flatten_packBundles _ _ hmax _ _ (Nat.le_refl _)] at hparcels
      refine ⟨first ++ later, ?_, ?_, ?_, ?_⟩
      · simp only [flushBuckets, run_bind, hfirst, hlater, List.map_append]
      · intro one hone
        rcases List.mem_append.mp hone with hhere | hthere
        · exact (hsound one hhere).1
        · exact hothers one hthere
      · rw [List.flatMap_append, hparcels, hall]
        rfl
      · intro flow
        rw [List.filter_append, List.flatMap_append, hflows flow, waitingOf_cons,
          flatMap_filter_flow (fun one hone => (hsound one hone).2) flow, hparcels]

end Flush

section Views

variable {env : Env} (fw : Forwarder)

variable (hdec : DecodeLaws env) (hkeys : HashKeyLaws env) (hseq : SeqNumLaws env)

include hdec hkeys hseq

/-- A parcel does not show the SeqNum its datagram carries. -/
theorem parcelOf_putUint64 (sender : IPv6) (req : EnqueueReq) {raw : Bytes}
    (hsize : headerSize ≤ raw.length) (hversion : byteAt raw 6 ≠ frameVerV1) (seqNum : UInt64) :
    parcelOf env fw sender { req with raw := putUint64 raw 48 seqNum } =
      parcelOf env fw sender { req with raw := raw } := by
  simp only [parcelOf, hseq.decode hsize hversion]
  cases hdecode : env.decode raw with
  | none =>
      have hover := putUint64_putUint64_self raw seqNum 0
        (show 48 + 8 ≤ raw.length from Nat.le_trans (by decide) hsize)
      simp only [Option.map_none, hover]
  | some f =>
      have hv2 : f.version = frameVerV2 := by
        rcases hdec.decode_version hdecode with hlegacy | hcurrent
        · exact absurd ((hkeys.decode_byte6 hdecode).trans hlegacy) hversion
        · exact hcurrent
      simp only [Option.map_some, hv2, ↓reduceIte]

theorem parcelOf_stamped (sender : IPv6) (req : EnqueueReq) {raw : Bytes}
    (hsize : headerSize ≤ raw.length) (hversion : byteAt raw 6 ≠ frameVerV1) (flow : ChainKey)
    (last other : UInt64) :
    parcelOf env fw sender { req with raw := stamped env fw raw flow last } =
      parcelOf env fw sender { req with raw := stamped env fw raw flow other } := by
  have hfit : 48 ≤ raw.length := Nat.le_trans (by decide) hsize
  by_cases hzero : uint64At raw 48 = 0
  · have hlength : headerSize ≤ (putUint64 raw 40 (env.hashKey flow)).length := by
      rw [length_putUint64 raw _ hfit]
      exact hsize
    have hbyte : byteAt (putUint64 raw 40 (env.hashKey flow)) 6 ≠ frameVerV1 := by
      rw [byteAt_putUint64_of_disjoint raw _ hfit (Or.inl (by decide))]
      exact hversion
    have hplain := fun seqNum =>
      parcelOf_putUint64 fw hdec hkeys hseq sender req hlength hbyte seqNum
    simp only [stamped, hzero, ↓reduceIte, hplain]
  · simp only [stamped, hzero, ↓reduceIte]

/-- A whole V2 transaction delivers its own tuple, stamped or not. -/
theorem parcelOf_tx
    (sender : IPv6) (req : EnqueueReq) {raw : Bytes} {f : Frame}
    (hdecode : env.decode raw = some f) (hversion : f.version = frameVerV2) (flow : ChainKey)
    (last : UInt64) :
    parcelOf env fw sender { req with raw := stamped env fw raw flow last } =
      .tx sender req.groupIdx f.subtreeID f.payload (fw.shownTxID f.txID) := by
  have hsize := (hdec.decode_size hdecode hversion).1
  have hfit : 48 ≤ raw.length := Nat.le_trans (by decide) hsize
  have hbyte : byteAt raw 6 ≠ frameVerV1 := by
    rw [hkeys.decode_byte6 hdecode, hversion]
    decide
  have hkeyed := hkeys.decode hfit hbyte (env.hashKey flow)
  have hplain : parcelOf env fw sender { req with raw := raw } =
      .tx sender req.groupIdx f.subtreeID f.payload (fw.shownTxID f.txID) := by
    simp only [parcelOf, hdecode, hversion, ↓reduceIte]
  have hrekeyed : parcelOf env fw sender { req with raw := putUint64 raw 40 (env.hashKey flow) } =
      .tx sender req.groupIdx f.subtreeID f.payload (fw.shownTxID f.txID) := by
    simp only [parcelOf, hkeyed, hdecode, hversion, ↓reduceIte]
  rw [stamped]
  split
  · rw [parcelOf_putUint64 fw hdec hkeys hseq sender req
      (by rw [length_putUint64 raw _ hfit]; exact hsize)
      (by rw [byteAt_putUint64_of_disjoint raw _ hfit (Or.inl (by decide))]; exact hbyte)]
    exact hrekeyed
  · split
    · exact hrekeyed
    · exact hplain

theorem parcelOf_planDatagram (hfrag : FragmentLaws env) (sender : IPv6) (plan : FragPlan)
    (k i : Nat) (hashKey seqNum other : UInt64) :
    parcelOf env fw sender (plan.enqueue (planDatagram env fw plan k i hashKey seqNum)) =
      parcelOf env fw sender (plan.enqueue (planDatagram env fw plan k i hashKey other)) := by
  have hlength : ∀ bytes : Bytes, (withByte7 plan.byte7 bytes).length = bytes.length := by
    intro bytes
    cases plan.byte7 <;> simp [withByte7]
  have hroom : 48 + 8 ≤ (env.fragmentBytes (plan.args fw i k hashKey 0)).length := by
    rw [hfrag.length]
    exact Nat.le_trans (by decide) (Nat.le_add_right headerSizeV3 _)
  have hsplit : ∀ seqNum, planDatagram env fw plan k i hashKey seqNum =
      putUint64 (withByte7 plan.byte7 (env.fragmentBytes (plan.args fw i k hashKey 0))) 48
        seqNum := by
    intro seqNum
    have hbytes := hseq.fragment_seqNum (plan.args fw i k hashKey 0) seqNum
    have hsame : ({ plan.args fw i k hashKey 0 with seqNum := seqNum } : FragmentArgs) =
      plan.args fw i k hashKey seqNum := rfl
    rw [hsame] at hbytes
    rw [planDatagram, hbytes]
    cases plan.byte7 with
    | none => rfl
    | some byte => exact set_putUint64 _ byte seqNum (by decide) hroom
  have hsize : headerSize ≤
      (withByte7 plan.byte7 (env.fragmentBytes (plan.args fw i k hashKey 0))).length := by
    rw [hlength, hfrag.length]
    exact Nat.le_trans (by decide) (Nat.le_add_right headerSizeV3 _)
  have hversion : byteAt (withByte7 plan.byte7
      (env.fragmentBytes (plan.args fw i k hashKey 0))) 6 ≠ frameVerV1 := by
    have hbyte := hseq.fragment_version (plan.args fw i k hashKey 0)
    cases plan.byte7 with
    | none =>
        rw [withByte7, hbyte]
        decide
    | some byte =>
        rw [withByte7, byteAt_set_ne _ byte (by decide), hbyte]
        decide
  have hplain := fun seqNum => parcelOf_putUint64 fw hdec hkeys hseq sender
    (plan.enqueue []) hsize hversion seqNum
  rw [hsplit seqNum, hsplit other]
  exact (hplain seqNum).trans (hplain other).symm

/-- What an action sends delivers the same from any counters. -/
theorem parcels_requests (hfrag : FragmentLaws env) {raw : Bytes} {src : Option NetAddr}
    {action : Action fw} (hadmits : Admits env fw raw src action) (sender : IPv6)
    (chains other : Chains) :
    ((action.out none src).requests env chains).map (parcelOf env fw sender) =
      ((action.out none src).requests env other).map (parcelOf env fw sender) := by
  obtain ⟨req, hreqs⟩ := hadmits.reqs_single
  rw [Outgoing.requests, Outgoing.requests]
  cases hsplit : (action.out none src).split with
  | some plan =>
      simp only [planRequests, List.map_map]
      apply List.map_congr_left
      intro i _
      exact parcelOf_planDatagram fw hdec hkeys hseq hfrag sender plan _ i _ _ _
  | none =>
      simp only [hreqs, List.map_cons, List.map_nil, Outgoing.frame]
      cases hflow : (action.out none src).flow with
      | none => rfl
      | some flow =>
          obtain ⟨hsize, hversion⟩ := hadmits.stampable hdec hkeys hseq hflow
          simp only
          rw [parcelOf_stamped fw hdec hkeys hseq sender req hsize hversion flow]

end Views

section Steps

variable {env : Env} {fw : Forwarder}

/-- Two workers that differ in counters, queue and buffer only, and the second
has no buffer. -/
structure Twins (on off : FwState) : Prop where
  ledger : on.ledger = off.ledger
  bridging : on.bridging = none
  offBridging : off.bridging = none
  offCoal : off.coal = none

/-- What one dispatch does to a worker and its twin: both queue the same
parcels, or a member waits here and its transaction is queued there. -/
structure TwinStep (d : Received) (on off onAfter offAfter : FwState) (coal : CoalBuffer)
    (env : Env) (fw : Forwarder) : Prop where
  twins : Twins onAfter offAfter
  step : ∃ newOn newOff, onAfter.queue = on.queue ++ newOn ∧ offAfter.queue = off.queue ++ newOff ∧
    ((onAfter.coal = some coal ∧
        newOn.map (parcelOf env fw (addrToIPv6 d.src)) =
          newOff.map (parcelOf env fw (addrToIPv6 d.src))) ∨
      ∃ flow member, onAfter.coal = some (coal.add flow member) ∧ flow.grp.toNat < 2 ^ 16 ∧
        Fits env fw member ∧ newOn = [] ∧
        newOff.map (parcelOf env fw (addrToIPv6 d.src)) = [member.parcel fw flow])

theorem not_waits_of_coal {f : Frame} {src : Option NetAddr} {st : FwState}
    (hcoal : st.coal = none) : ¬ Waits env fw st f src := by
  rintro ⟨_, _, _, _, hsome, _⟩
  rw [hcoal] at hsome
  cases hsome

theorem Action.not_waits_of_coal {src : Option NetAddr} {st : FwState} (hcoal : st.coal = none)
    (action : Action fw) : ¬ action.Waits env src st := by
  cases action with
  | tx frame f => exact ShardProxy.not_waits_of_coal hcoal
  | send o => exact id

theorem Action.act_sends {src : Option NetAddr} {st : FwState} {action : Action fw}
    (hbridging : st.bridging = none) (hwaits : ¬ action.Waits env src st) :
    action.act env src st = (action.out none src).send env st := by
  rw [Action.act_of_not_waits hwaits, hbridging]

variable (hdec : DecodeLaws env) (hkeys : HashKeyLaws env) (hseq : SeqNumLaws env)

include hdec hkeys hseq

/-- A transaction that waits here leaves whole there. -/
theorem requests_of_waits {frame : Bytes} {f : Frame} {src : NetAddr}
    (hdecode : env.decode frame = some f) {st : FwState} (hwaits : Waits env fw st f (some src))
    (chains : Chains) :
    ¬ (txOut fw none frame f (some src)).Overflows ∧
      ((txOut fw none frame f (some src)).requests env chains).map
          (parcelOf env fw (addrToIPv6 src)) =
        [Member.parcel fw (txFlow fw f src) ⟨f.txID, f.payload⟩] := by
  obtain ⟨_, hversion, hsmall, _⟩ := hwaits
  have hsplit : (txOut fw none frame f (some src)).split = none := by
    simp only [txOut, splitOf, hsmall, ↓reduceIte]
  constructor
  · rintro ⟨plan, hplan, _⟩
    cases hsplit.symm.trans hplan
  · rw [Outgoing.requests, hsplit]
    simp only [Outgoing.frame, txOut, Option.map_some, bridgeCopy, List.map_cons, List.map_nil]
    have hparcel := parcelOf_tx fw hdec hkeys hseq (addrToIPv6 src)
      (enqueueData [] (fw.addrFor (fw.engine.groupIndex f.txID)) (fw.engine.groupIndex f.txID))
      hdecode hversion (txFlow fw f src) (lastSeq chains (txFlow fw f src))
    exact congrArg (fun parcel => [parcel]) hparcel

theorem dispatch_twins (hfrag : FragmentLaws env) {d : Received} {on off : FwState}
    {coal : CoalBuffer} (htwins : Twins on off) (hcoal : on.coal = some coal)
    (hencodable : d.Encodable env fw) :
    TwinStep d on off (d.dispatch env fw on).2 (d.dispatch env fw off).2 coal env fw := by
  rcases dispatchClass_settles env fw d.raw (some d.src) d.now d.cls on.ledger with
    ⟨drop, after, hdrop⟩ | ⟨action, after, hadmits, hact⟩
  · rw [Received.dispatch, hdrop on rfl, hdrop off htwins.ledger.symm]
    exact ⟨⟨rfl, htwins.bridging, htwins.offBridging, htwins.offCoal⟩, [], [],
      (List.append_nil _).symm, (List.append_nil _).symm, Or.inl ⟨hcoal, rfl⟩⟩
  · have hoff : action.act env (some d.src) (off.withLedger after) =
        (action.out none (some d.src)).send env (off.withLedger after) :=
      Action.act_sends htwins.offBridging (Action.not_waits_of_coal htwins.offCoal action)
    rw [Received.dispatch, hact on rfl, hact off htwins.ledger.symm, hoff]
    by_cases hwaits : action.Waits env (some d.src) (on.withLedger after)
    · cases action with
      | send o => exact absurd hwaits id
      | tx frame f =>
          obtain ⟨hframe, hgates⟩ : TxFrame env fw d.raw frame ∧
              ∃ verify, txGates env fw frame verify = .ok f := by
            cases hadmits with
            | tx hframe hgates => exact ⟨hframe, _, hgates⟩
          obtain ⟨verify, hgates⟩ := hgates
          have hdecode := txGates_ok hgates
          have hversion := hwaits.2.1
          obtain ⟨hfit, hparcels⟩ := requests_of_waits hdec hkeys hseq hdecode hwaits off.chains
          have hbudget := hwaits.2.2.2.2.2.2
          rw [Action.act, emitTx_of_waits env fw frame hwaits, Action.out, if_pos hversion,
            Outgoing.send_apply _ hfrag _ hfit]
          refine ⟨⟨rfl, htwins.bridging, htwins.offBridging, htwins.offCoal⟩, [], _,
            (List.append_nil _).symm, rfl, Or.inr ⟨txFlow fw f d.src, ⟨f.txID, f.payload⟩, ?_, ?_,
              ⟨hbudget, ?_⟩, rfl, hparcels⟩⟩
          · change Option.map _ on.coal = _
            rw [hcoal]
            rfl
          · exact Nat.lt_trans (shardIndex_lt fw.engine (fw.engine.groupIndex_lt f.txID))
              (by decide)
          · exact hencodable frame f hframe hdecode hversion ⟨hwaits.2.2.1, hbudget⟩
    · have hon : action.act env (some d.src) (on.withLedger after) =
          (action.out none (some d.src)).send env (on.withLedger after) :=
        Action.act_sends htwins.bridging hwaits
      rw [hon]
      by_cases hover : (action.out none (some d.src)).Overflows
      · rw [Outgoing.send_overflow _ hover, Outgoing.send_overflow _ hover]
        exact ⟨⟨rfl, htwins.bridging, htwins.offBridging, htwins.offCoal⟩, [], [],
          (List.append_nil _).symm, (List.append_nil _).symm, Or.inl ⟨hcoal, rfl⟩⟩
      · rw [Outgoing.send_apply _ hfrag _ hover, Outgoing.send_apply _ hfrag _ hover]
        exact ⟨⟨rfl, htwins.bridging, htwins.offBridging, htwins.offCoal⟩, _, _, rfl, rfl,
          Or.inl ⟨hcoal, parcels_requests fw hdec hkeys hseq hfrag hadmits _ _ _⟩⟩

/-- A batch on a worker and its twin.  What waited before and what the twin
queues is, up to order, what is queued here and what waits after; and a flow's
waiting members are in the twin's order. -/
theorem receive_twins
    (hfrag : FragmentLaws env) {batch : List Received}
    (hbatch : ∀ d ∈ batch, d.Encodable env fw) {on off : FwState} {coal : CoalBuffer}
    (htwins : Twins on off) (hcoal : on.coal = some coal) (hsound : coal.Sound env fw) :
    ∃ after : CoalBuffer, (receive env fw batch on).coal = some after ∧ after.Sound env fw ∧
      (parcels env fw batch on ++ waiting fw after.buckets).Perm
        (waiting fw coal.buckets ++ parcels env fw.withoutCoalescing batch off) ∧
      ∀ flow, (waitingOf fw flow after.buckets).Sublist
        (waitingOf fw flow coal.buckets ++ parcels env fw.withoutCoalescing batch off) := by
  induction batch generalizing on off coal with
  | nil =>
      refine ⟨coal, hcoal, hsound, ?_, ?_⟩
      · rw [parcels, parcels, List.append_nil]
        exact List.Perm.refl _
      · intro flow
        rw [parcels, List.append_nil]
  | cons d rest ih =>
      obtain ⟨hafter, newOn, newOff, hon, hoff, hstep⟩ := dispatch_twins hdec hkeys hseq hfrag
        htwins hcoal (hbatch d List.mem_cons_self)
      have hrest : ∀ later ∈ rest, later.Encodable env fw :=
        fun later hlater => hbatch later (List.mem_cons_of_mem d hlater)
      have hview : parcelOf env fw.withoutCoalescing = parcelOf env fw := rfl
      simp only [receive, parcels, dispatch_withoutCoalescing env fw d htwins.offCoal, hon, hoff,
        List.drop_left, hview]
      rcases hstep with ⟨hkept, hsame⟩ | ⟨flow, member, hadded, hgroup, hfits, rfl, hone⟩
      · obtain ⟨after, hcoal', hsound', hperm, horder⟩ := ih hrest hafter hkept hsound
        refine ⟨after, hcoal', hsound', ?_, ?_⟩
        · rw [hsame, List.append_assoc]
          refine (hperm.append_left _).trans ?_
          rw [← List.append_assoc, ← List.append_assoc]
          exact List.perm_append_comm.append_right _
        · intro flow
          refine (horder flow).trans ?_
          exact (List.sublist_append_right _ _).append_left _
      · obtain ⟨after, hcoal', hsound', hperm, horder⟩ :=
          ih hrest hafter hadded (hsound.add hgroup hfits)
        refine ⟨after, hcoal', hsound', ?_, ?_⟩
        · rw [hone, List.map_nil, List.nil_append]
          refine hperm.trans ?_
          rw [← List.append_assoc]
          exact (waiting_addMember fw flow member coal.buckets).append_right _
        · intro key
          refine (horder key).trans ?_
          have hgrown : waitingOf fw key (coal.add flow member).buckets = _ :=
            waitingOf_addMember fw key flow member hsound.flows
          rw [hgrown, hone, List.append_assoc]
          apply List.Sublist.append_left
          apply List.Sublist.append_right
          split
          · exact List.Sublist.refl _
          · exact List.nil_sublist _

end Steps

section Result

variable {env : Env} {fw : Forwarder} {decodeBundle : Bytes → Option Bundle}

theorem CoalBuffer.reset_eq {coal other : CoalBuffer} (hcap : coal.maxMembers = other.maxMembers)
    (hempty : other.buckets = []) : coal.reset = other := by
  apply CoalBuffer.ext
  · exact hempty.symm
  · exact hcap

/-- Coalescing preserves a batch of datagrams none of which is a transaction too
long for the bundle it waits for. -/
theorem batch_preserved (hdec : DecodeLaws env) (hkeys : HashKeyLaws env)
    (hseq : SeqNumLaws env) (hfrag : FragmentLaws env) (hlaws : BundleLaws env)
    (hcodec : BundleCodec env decodeBundle) {batch : List Received}
    (hbatch : ∀ d ∈ batch, d.Encodable env fw) {st : FwState} (hbridging : st.bridging = none) :
    Preserved env fw decodeBundle batch st := by
  have htwins : Twins (st.armed fw) st.unarmed := ⟨rfl, hbridging, hbridging, rfl⟩
  obtain ⟨coal, hcoal, hsound, hperm, horder⟩ := receive_twins hdec hkeys hseq hfrag hbatch htwins
    rfl (CoalBuffer.Sound.new env fw)
  obtain ⟨bundles, houtputs, hbundles, hall, hflows⟩ := flushBuckets_sent hcodec hlaws
    coal.maxMembers_pos hsound.groups (fun bk hbk members hmembers => hsound.packable hbk hmembers)
    (receive env fw batch (st.armed fw)).chains
  rw [newCoalBuffer_buckets] at hperm horder
  constructor
  · refine ⟨bundles, ?_, hbundles, ?_, ?_⟩
    · simp only [flushCoalescedFw, hcoal, flushCoalesced, houtputs]
    · rw [hall]
      exact hperm
    · intro flow
      rw [hflows flow]
      exact horder flow
  · simp only [flushCoalescedFw, hcoal]
    refine congrArg some (CoalBuffer.reset_eq ?_ (newCoalBuffer_buckets _))
    rw [hsound.cap, newCoalBuffer_maxMembers]

end Result

section Sample

open Reference

/-- Coalescing at an MTU of 1500, and at one of 128 KiB. -/
def coalescingForwarder : Forwarder :=
  forwarder.setCoalesce true 1500 0 false

def jumboForwarder : Forwarder :=
  forwarder.setCoalesce true 131072 0 false

def sampleBatch : List Received :=
  [⟨sampleFrame (sampleID 1) (sampleTx 0), source 1, 0, .transaction⟩,
    ⟨sampleFrame (sampleID 1) (sampleTx 1), source 1, 0, .transaction⟩]

/-- No payload that fits an MTU of 1500 is too long for a member. -/
theorem encodable_coalescing (d : Received) : d.Encodable Reference.env coalescingForwarder := by
  intro frame f _ _ _ heligible
  have hbudget : ((66 + 2 + f.payload.length : Nat) : Int) ≤ 1500 - 48 := heligible.2
  omega

/-- Two transactions of one flow leave in one bundle, and nothing of them is
lost. -/
theorem batch_preserved_sample :
    Preserved Reference.env coalescingForwarder decodeBundle sampleBatch state ∧
      (flushCoalescedFw Reference.env coalescingForwarder
        (receive Reference.env coalescingForwarder sampleBatch
          (state.armed coalescingForwarder))).2.queue.length = 1 :=
  ⟨batch_preserved decodeLaws hashKeyLaws seqNumLaws fragmentLaws bundleLaws bundleCodec
    (fun d _ => encodable_coalescing d) rfl, by decide +kernel⟩

theorem dispatch_sampleFrame (fw : Forwarder) (id : Hash32) (tx : Bytes) (src : NetAddr)
    (now : Time) :
    Received.dispatch Reference.env fw ⟨sampleFrame id tx, src, now, .transaction⟩ =
      processFrame Reference.env fw (sampleFrame id tx) (some src) := by
  have hframed : framed (sampleFrame id tx) := framed_encodeFields _ _
  have hversion : versionByte (sampleFrame id tx) = some frameVerV2 := versionByte_encodeFields _ _
  rw [Received.dispatch, dispatchClass_eq_route]
  have hroute : route Reference.env fw (sampleFrame id tx) (some src) .transaction =
      .entry (.process (sampleFrame id tx)) := by
    rw [route, if_neg (not_not_intro hframed), hversion]
    rfl
  simp only [hroute]
  rfl

/-- A bundle whose only member is too long is not queued. -/
theorem flush_longMember (fw : Forwarder) (coal : CoalBuffer) (flow : ChainKey) (member : Member)
    (hempty : coal.buckets = []) (hlong : 2 ^ 16 ≤ member.tx.length) (chains : Chains) :
    (run (flushCoalesced Reference.env fw (coal.add flow member)) chains).outputs = [] := by
  have hnone : ∀ bk hashKey seqNum,
      Reference.env.encodeBundle (bundleOf fw bk [member] hashKey seqNum) = none := by
    intro bk hashKey seqNum
    refine if_neg ?_
    rintro ⟨_, hshort⟩
    have hmember := hshort member (List.mem_singleton_self member)
    omega
  simp [flushCoalesced, CoalBuffer.add, hempty, addMember, flushBuckets, packBundles, takeBundle,
    coal.maxMembers_pos, flushBundles, hnone, sendEncoded]

/-- The transaction of a frame that is not stamped. -/
def unstampedTx (tx : Bytes) : Frame :=
  ⟨frameVerV2, sampleID 1, 0, zeroHash, tx⟩

theorem process_unstamped {tx : Bytes} (hlength : tx.length < 2 ^ 32) (st : FwState) :
    processFrame Reference.env jumboForwarder (sampleFrame (sampleID 1) tx) (some (source 1)) st =
      emitTx Reference.env jumboForwarder (sampleFrame (sampleID 1) tx) (unstampedTx tx)
        (some (source 1)) st := by
  have hgates : txGates Reference.env jumboForwarder (sampleFrame (sampleID 1) tx) false =
      .ok (unstampedTx tx) := by
    refine txGates_of_unstamped (decode_sampleFrame _ hlength) rfl rfl ?_ ?_ ?_ <;>
      · intro hnever
        cases hnever
  exact Fw.gate_bind_ok hgates _ st

/-- A transaction within the budget of 128 KiB waits, however long. -/
theorem waits_jumbo {tx : Bytes} (hfits : tx.length ≤ 131072 - 116) {st : FwState}
    (hcoal : st.coal.isSome) (hbridging : st.bridging.isNone) :
    Waits Reference.env jumboForwarder st (unstampedTx tx) (some (source 1)) := by
  have hsmall : ¬ jumboForwarder.fragments tx := fun hsplit => absurd hsplit.1 (by decide)
  refine ⟨rfl, rfl, hsmall, rfl, hcoal, hbridging, ?_⟩
  change ((66 + 2 + tx.length : Nat) : Int) ≤ 131072 - 48
  omega

theorem dispatch_jumbo {tx : Bytes} (hfits : tx.length ≤ 131072 - 116) {st : FwState}
    {coal : CoalBuffer} (hcoal : st.coal = some coal) (hbridging : st.bridging.isNone)
    (now : Time) :
    (Received.dispatch Reference.env jumboForwarder
      ⟨sampleFrame (sampleID 1) tx, source 1, now, .transaction⟩ st).2 =
      { st with coal := some (coal.add (txFlow jumboForwarder (unstampedTx tx) (source 1))
        ⟨sampleID 1, tx⟩) } := by
  have hwaits := waits_jumbo hfits (hcoal ▸ rfl : st.coal.isSome) hbridging
  rw [dispatch_sampleFrame, process_unstamped (by omega), emitTx_of_waits _ _ _ hwaits]
  simp only [hcoal, Option.map_some]
  rfl

/-- A transaction of 65536 bytes or more waits, and its bundle cannot be written. -/
theorem longMember_lost {tx : Bytes} (hlong : 2 ^ 16 ≤ tx.length)
    (hfits : tx.length ≤ 131072 - 116) :
    ¬ Preserved Reference.env jumboForwarder decodeBundle
      [⟨sampleFrame (sampleID 1) tx, source 1, 0, .transaction⟩] state := by
  have hlength : tx.length < 2 ^ 32 := by omega
  have hwaits : Waits Reference.env jumboForwarder (state.armed jumboForwarder)
      (unstampedTx tx) (some (source 1)) := waits_jumbo hfits rfl rfl
  have hon : (Received.dispatch Reference.env jumboForwarder
      ⟨sampleFrame (sampleID 1) tx, source 1, 0, .transaction⟩ (state.armed jumboForwarder)).2 =
      { state with coal := some ((newCoalBuffer 0).add
        (txFlow jumboForwarder (unstampedTx tx) (source 1)) ⟨sampleID 1, tx⟩) } :=
    dispatch_jumbo hfits rfl rfl 0
  have hdecode : Reference.env.decode (sampleFrame (sampleID 1) tx) = some (unstampedTx tx) :=
    decode_sampleFrame (sampleID 1) hlength
  obtain ⟨hfit, hparcels⟩ := requests_of_waits decodeLaws hashKeyLaws seqNumLaws hdecode hwaits
    state.chains
  have hoff : (Received.dispatch Reference.env jumboForwarder.withoutCoalescing
      ⟨sampleFrame (sampleID 1) tx, source 1, 0, .transaction⟩ state.unarmed).2.queue =
      (txOut jumboForwarder none (sampleFrame (sampleID 1) tx) (unstampedTx tx)
        (some (source 1))).requests Reference.env state.chains := by
    have halone : ¬ Waits Reference.env jumboForwarder state.unarmed (unstampedTx tx)
        (some (source 1)) := not_waits_of_coal rfl
    rw [dispatch_withoutCoalescing _ _ _ rfl, dispatch_sampleFrame, process_unstamped hlength,
      emitTx_of_not_waits _ _ rfl _ halone]
    exact congrArg (fun ran => ran.2.queue) (Outgoing.send_apply _ fragmentLaws state.unarmed hfit)
  intro hkept
  obtain ⟨bundles, hqueue, _, hperm, _⟩ := hkept.kept
  have hflush := flush_longMember jumboForwarder (newCoalBuffer 0)
    (txFlow jumboForwarder (unstampedTx tx) (source 1)) ⟨sampleID 1, tx⟩
    (newCoalBuffer_buckets 0) hlong state.chains
  simp only [receive, hon, flushCoalescedFw, hflush] at hqueue
  obtain rfl : bundles = [] := List.map_eq_nil_iff.mp hqueue.symm
  simp only [parcels, hon, hoff] at hperm
  have hone := congrArg List.length hparcels
  have hmany := hperm.length_eq
  simp [state, FwState.armed, FwState.unarmed] at hone hmany
  omega

/-- With a budget above 65535 bytes, a transaction of 65536 is lost. -/
theorem longBatch_not_preserved :
    ¬ Preserved Reference.env jumboForwarder decodeBundle
      [⟨sampleFrame (sampleID 1) (List.replicate 65536 0), source 1, 0, .transaction⟩] state := by
  apply longMember_lost <;> rw [List.length_replicate] <;> decide

end Sample

end ShardProxy
