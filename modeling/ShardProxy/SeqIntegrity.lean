/-
Sequence integrity of the flows.  Any number of workers stamp frames, split
payloads, flush bundles and admit BEEF records on the shared counters, and
their steps interleave in any order.  Every flow's SeqNums come out as one run
from one up, a reservation is a block of that run, and each worker queues a
flow's datagrams in the order of their numbers.
-/
import ShardProxy.Lib.Interleaving
import ShardProxy.Outgoing
import ShardProxy.Reference

namespace ShardProxy

open ByteField Chunks Dispenser TicketLog

/-- The classes of traffic that number their datagrams. -/
inductive Plane where
  | tx
  | beef
  | announce
  | coinbase
  | anchor
  | subtreeData
deriving DecidableEq

/-- The group indices the flows of a plane are keyed on. -/
def Plane.Owns : Plane → UInt32 → Prop
  | .tx, grp => grp.toNat < 0x1000
  | .beef, grp => 0x1000 ≤ grp.toNat ∧ grp.toNat ≤ 0x1FFF
  | .announce, grp => grp.toNat = groupBlockBroadcast.toNat
  | .coinbase, grp => grp.toNat = groupCoinbaseFlow.toNat
  | .anchor, grp => grp.toNat = groupAnchorFlow.toNat
  | .subtreeData, grp => grp.toNat = groupSubtreeDataAnnounce.toNat

theorem Plane.eq_of_owns {plane other : Plane} {grp : UInt32} (hplane : plane.Owns grp)
    (hother : other.Owns grp) : plane = other := by
  have hbroadcast : groupBlockBroadcast.toNat = 0xFFFE := rfl
  have hcoinbase : groupCoinbaseFlow.toNat = 0xFFF8 := rfl
  have hanchor : groupAnchorFlow.toNat = 0xFFF9 := rfl
  have hsubtree : groupSubtreeDataAnnounce.toNat = 0xFFFB := rfl
  cases plane <;> cases other <;> simp only [Plane.Owns] at hplane hother <;>
    first
      | rfl
      | omega

/-- The plane of a block frame: announces and coinbase count apart. -/
def blockPlane (bf : BlockFrame) : Plane :=
  if bf.msgType = blockMsgCoinbase then .coinbase else .announce

theorem owns_blockCtrlIdx (bf : BlockFrame) : (blockPlane bf).Owns (blockCtrlIdx bf) := by
  rw [blockPlane, blockCtrlIdx]
  split <;> rfl

/-- A whole frame that nobody has numbered yet. -/
structure Unstamped (raw : Bytes) : Prop where
  size : headerSize ≤ raw.length
  seq : uint64At raw 48 = 0

/-- A buffer whose members were routed by the active engine. -/
def CoalBuffer.RoutedBy (fw : Forwarder) (coal : CoalBuffer) : Prop :=
  ∀ bk ∈ coal.buckets, ∃ id, bk.group = fw.engine.groupIndex id

theorem CoalBuffer.RoutedBy.add {fw : Forwarder} {coal : CoalBuffer}
    (hcoal : coal.RoutedBy fw) (f : Frame) (src : NetAddr) (member : Member) :
    (coal.add (txFlow fw f src) member).RoutedBy fw := by
  intro bk hbk
  rcases flow_mem_addMember hbk with hnew | ⟨old, hold, hflow⟩
  · exact ⟨f.txID, congrArg ChainKey.grp hnew⟩
  · obtain ⟨id, hid⟩ := hcoal old hold
    exact ⟨id, (congrArg ChainKey.grp hflow).trans hid⟩

section Jobs

variable (env : Env) (fw : Forwarder) (published : Option Engine → Prop)

/-- One step of a worker, by plane: send an unstamped frame or the fragments of
any frame, flush the coalescing buffer, or admit a BEEF record.  A transaction
is sent under one of the bridging engines that may be published meanwhile. -/
inductive Job : Plane → Emit PUnit → Prop where
  | tx {bridging : Option Engine} {raw : Bytes} {f : Frame} {src : NetAddr}
      (hbridging : published bridging) (hraw : ¬ fw.fragments f.payload → Unstamped raw)
      (hfit : ¬ (txOut fw bridging raw f (some src)).Overflows) :
      Job .tx ((txOut fw bridging raw f (some src)).program env)
  | block {raw : Bytes} {bf : BlockFrame} {src : NetAddr}
      (hraw : ¬ fw.fragments bf.payload → Unstamped raw)
      (hfit : ¬ (blockOut fw raw bf (some src)).Overflows) :
      Job (blockPlane bf) ((blockOut fw raw bf (some src)).program env)
  | anchor {raw : Bytes} {src : NetAddr} (hraw : Unstamped raw) :
      Job .anchor ((anchorOut fw raw (some src)).program env)
  | subtreeData {raw : Bytes} {sf : SubtreeDataFrame} {src : NetAddr}
      (hraw : ¬ fw.fragments sf.payload → Unstamped raw)
      (hfit : ¬ (subtreeOut fw raw sf (some src)).Overflows) :
      Job .subtreeData ((subtreeOut fw raw sf (some src)).program env)
  | beef {engine : PlaneEngine} {checked : CheckedBEEF} {src : NetAddr}
      (hgroup : checked.groupIdx = engine.groupIndex checked.bf.topicID)
      (hraw : ¬ fw.fragments checked.bf.payload → Unstamped checked.raw)
      (hfit : ¬ (beefOut fw checked (some src)).Overflows) :
      Job .beef ((beefOut fw checked (some src)).program env)
  | flush {coal : CoalBuffer} (hcoal : coal.RoutedBy fw) :
      Job .tx (flushCoalesced env fw coal)
  | admission {engine : PlaneEngine} {checked : CheckedBEEF} {src : NetAddr}
      (hgroup : checked.groupIdx = engine.groupIndex checked.bf.topicID) :
      Job .beef (reserveAdmission env fw checked src >>= fun _ => pure ⟨⟩)

/-- A step of some plane. -/
def AnyJob (prog : Emit PUnit) : Prop :=
  ∃ plane, Job env fw published plane prog

variable {env fw published}

theorem nextSeq_reserves {key own : ChainKey} {A : Type} {next : UInt64 × UInt64 → Emit A}
    (hreserves : (nextSeq env own >>= next).Reserves key) :
    key = own ∨ ∃ result, (next result).Reserves key := by
  rcases hreserves.of_bind with (hown | ⟨_, hnone⟩) | hnext
  · exact Or.inl hown.symm
  · exact absurd hnone id
  · exact Or.inr hnext

theorem sendEncoded_reserves {key : ChainKey} {req : Bytes → EnqueueReq}
    {encoded : Option Bytes} (hreserves : (sendEncoded req encoded).Reserves key) : False := by
  cases encoded <;> exact hreserves

theorem sendAll_reserves {key : ChainKey} {reqs : List EnqueueReq}
    (hreserves : (sendAll reqs).Reserves key) : False := by
  induction reqs with
  | nil => exact hreserves
  | cons req rest ih => exact ih hreserves

theorem stampInPlace_reserves {key flow : ChainKey} {raw : Bytes}
    (hreserves : (stampInPlace env fw raw flow).Reserves key) : key = flow := by
  rw [stampInPlace] at hreserves
  split at hreserves
  · rcases nextSeq_reserves hreserves with hown | ⟨_, hnone⟩
    · exact hown
    · exact absurd hnone id
  · split at hreserves <;> exact absurd hreserves id

theorem fragmentLoop_reserves {key : ChainKey} {plan : FragPlan} {k : Nat} {indices : List Nat}
    (hreserves : (fragmentLoop env fw plan k indices).Reserves key) : key = plan.flow := by
  induction indices with
  | nil => exact absurd hreserves id
  | cons i rest ih =>
      rw [fragmentLoop] at hreserves
      rcases nextSeq_reserves hreserves with hown | ⟨result, hnext⟩
      · exact hown
      · rcases hnext.of_bind with hsend | ⟨_, hrest⟩
        · exact absurd hsend sendEncoded_reserves
        · exact ih hrest

/-- Sending an object draws numbers from the flow it is stamped on only. -/
theorem Outgoing.program_reserves {o : Outgoing fw} {key flow : ChainKey}
    (hflow : o.flow = some flow) (hsplit : ∀ plan, o.split = some plan → plan.flow = flow)
    (hreserves : (o.program env).Reserves key) : key = flow := by
  rw [Outgoing.program] at hreserves
  cases hplan : o.split with
  | some plan =>
      rw [hplan] at hreserves
      exact (fragmentLoop_reserves hreserves).trans (hsplit plan hplan)
  | none =>
      rw [hplan, hflow] at hreserves
      rcases hreserves.of_bind with hstamp | ⟨raw, hsend⟩
      · exact stampInPlace_reserves hstamp
      · exact absurd hsend sendAll_reserves

theorem flushBundles_reserves {key : ChainKey} {bk : CoalBucket} {bundles : List (List Member)}
    (hreserves : (flushBundles env fw bk bundles).Reserves key) : key = bk.flow := by
  induction bundles with
  | nil => exact absurd hreserves id
  | cons members rest ih =>
      rw [flushBundles] at hreserves
      rcases nextSeq_reserves hreserves with hown | ⟨result, hnext⟩
      · exact hown
      · rcases hnext.of_bind with hsend | ⟨_, hrest⟩
        · exact absurd hsend sendEncoded_reserves
        · exact ih hrest

theorem flushBuckets_reserves {key : ChainKey} {maxMembers : Nat} {buckets : List CoalBucket}
    (hreserves : (flushBuckets env fw maxMembers buckets).Reserves key) :
    ∃ bk ∈ buckets, key = bk.flow := by
  induction buckets with
  | nil => exact absurd hreserves id
  | cons bk rest ih =>
      rcases hreserves.of_bind with hbundles | ⟨_, hrest⟩
      · exact ⟨bk, List.mem_cons_self, flushBundles_reserves hbundles⟩
      · obtain ⟨found, hfound, hkey⟩ := ih hrest
        exact ⟨found, List.mem_cons_of_mem bk hfound, hkey⟩

theorem owns_tx_of_engine (id : Hash32) : Plane.tx.Owns (fw.engine.groupIndex id) := by
  have hindex := fw.engine.groupIndex_lt id
  have hbits : 2 ^ fw.engine.shardBits ≤ 2 ^ 12 :=
    Nat.pow_le_pow_right (by decide) fw.engine.shardBits_le
  exact Nat.lt_of_lt_of_le hindex hbits

theorem splitOf_flow {payload : Bytes} {src : NetAddr} {plan : NetAddr → FragPlan}
    {found : FragPlan} (hfound : splitOf fw payload (some src) plan = some found) :
    found = plan src := by
  rw [splitOf] at hfound
  split at hfound
  · exact (Option.some.inj hfound).symm
  · cases hfound

/-- A step of a plane numbers datagrams on flows of that plane only. -/
theorem Job.owns {plane : Plane} {prog : Emit PUnit} (hjob : Job env fw published plane prog)
    {key : ChainKey} (hreserves : prog.Reserves key) : plane.Owns key.grp := by
  cases hjob with
  | tx hbridging hraw hfit =>
      rw [Outgoing.program_reserves rfl (fun plan hplan => by rw [splitOf_flow hplan]; rfl)
        hreserves]
      exact owns_tx_of_engine _
  | @block raw bf src hraw hfit =>
      rw [Outgoing.program_reserves rfl (fun plan hplan => by rw [splitOf_flow hplan]; rfl)
        hreserves]
      exact owns_blockCtrlIdx bf
  | anchor hraw =>
      rw [Outgoing.program_reserves rfl (fun plan hplan => by cases hplan) hreserves]
      rfl
  | subtreeData hraw hfit =>
      rw [Outgoing.program_reserves rfl (fun plan hplan => by rw [splitOf_flow hplan]; rfl)
        hreserves]
      rfl
  | @beef engine checked src hgroup hraw hfit =>
      rw [Outgoing.program_reserves rfl (fun plan hplan => by rw [splitOf_flow hplan]; rfl)
        hreserves]
      exact hgroup ▸ engine.groupIndex_band _
  | flush hcoal =>
      obtain ⟨bk, hbk, rfl⟩ := flushBuckets_reserves hreserves
      obtain ⟨id, hid⟩ := hcoal bk hbk
      exact (congrArg Plane.tx.Owns hid).mpr (owns_tx_of_engine id)
  | @admission engine checked src hgroup =>
      have hkey : key = ⟨addrToIPv6 src, checked.groupIdx, zeroHash⟩ := by
        rcases hreserves.of_bind with hreserve | ⟨_, hnone⟩
        · rw [reserveAdmission] at hreserve
          split at hreserve
          · rcases hreserve with hown | ⟨_, hnone⟩
            · exact hown.symm
            · exact absurd hnone id
          · rcases hreserve.of_bind with hstamp | ⟨_, hnone⟩
            · exact stampInPlace_reserves hstamp
            · exact absurd hnone id
        · exact absurd hnone id
      rw [hkey]
      exact hgroup ▸ engine.groupIndex_band _

theorem carries_stamped {raw : Bytes} (hraw : Unstamped raw) (key : ChainKey)
    (seqNum : UInt64) {req : EnqueueReq}
    (hreq : req.raw = putUint64 (putUint64 raw 40 (env.hashKey key)) 48 seqNum) :
    Carries env key seqNum req := by
  have hfit : 56 ≤ raw.length := Nat.le_trans (by decide) hraw.size
  have hlength : (putUint64 raw 40 (env.hashKey key)).length = raw.length :=
    length_putUint64 raw _ (by omega)
  rw [Carries, hreq]
  constructor
  · rw [uint64At_putUint64_of_disjoint _ _ (by omega) (by omega)]
    exact uint64At_putUint64_self raw _ (by omega)
  · exact uint64At_putUint64_self _ _ (by omega)

theorem sendEncoded_stamped {key : ChainKey} {seqNum : UInt64} {req : Bytes → EnqueueReq}
    {encoded : Option Bytes}
    (hcarries : ∀ datagram, encoded = some datagram → Carries env key seqNum (req datagram)) :
    (sendEncoded req encoded).Stamped (Carries env) (some (key, seqNum)) := by
  cases encoded with
  | none => trivial
  | some datagram => exact ⟨⟨key, seqNum, rfl, hcarries datagram rfl⟩, trivial⟩

/-- The split loop sends each fragment under the number it has just drawn. -/
theorem fragmentLoop_stamped (hlaws : FragmentLaws env) (plan : FragPlan) {k : Nat}
    (hsize : 0 < fw.fragDataSize) (hk : k = fw.fragTotal plan.payload) (hmax : k ≤ 65535)
    (indices : List Nat) (hindices : ∀ i ∈ indices, i < k) :
    (fragmentLoop env fw plan k indices).Stamped (Carries env) none := by
  induction indices with
  | nil => trivial
  | cons i rest ih =>
      have hrest := ih fun j hj => hindices j (List.mem_cons_of_mem i hj)
      rw [fragmentLoop]
      refine ⟨Nat.one_pos, fun seqNum => ?_⟩
      have hplaced := plan.placed hsize hk hmax (hindices i List.mem_cons_self)
        (env.hashKey plan.flow) seqNum
      have hbuf : headerSizeV3 + (chunk plan.payload fw.fragDataSize i).length ≤
          (env.poolBuffer (headerSizeV3 + fw.fragDataSize) i).length := by
        rw [env.length_poolBuffer]
        exact Nat.add_le_add_left (length_chunk_le plan i) _
      change (sendEncoded _ _ >>= fun _ => fragmentLoop env fw plan k rest).Stamped _ _
      refine Prog.Stamped.bind (sendEncoded_stamped ?_) fun _ => hrest
      intro datagram hdatagram
      rw [encodePlanned_eq hlaws plan hplaced hbuf] at hdatagram
      obtain rfl := Option.some.inj hdatagram
      exact carries_planDatagram hlaws plan k i seqNum

theorem stampInPlace_of_unstamped {raw : Bytes} (hraw : Unstamped raw) (flow : ChainKey) :
    stampInPlace env fw raw flow =
      Prog.reserve flow 1 fun seqNum =>
        .done (putUint64 (putUint64 raw 40 (env.hashKey flow)) 48 seqNum) := by
  rw [stampInPlace, if_pos hraw.seq]
  rfl

theorem not_fragments_of_splitOf {payload : Bytes} {src : NetAddr}
    {plan : NetAddr → FragPlan} (hsplit : splitOf fw payload (some src) plan = none) :
    ¬ fw.fragments payload := by
  intro hfragments
  simp [splitOf, hfragments] at hsplit

/-- Sending an object, unstamped where it leaves whole, sends each datagram
under the number it has just drawn. -/
theorem Outgoing.program_stamped (hlaws : FragmentLaws env) {o : Outgoing fw}
    {flow : ChainKey} (hflow : o.flow = some flow) (hraw : o.split = none → Unstamped o.raw)
    (hfit : ¬ o.Overflows) (hreqs : ∀ raw, ∃ req, o.reqs raw = [req] ∧ req.raw = raw) :
    (o.program env).Stamped (Carries env) none := by
  rw [Outgoing.program]
  cases hsplit : o.split with
  | some plan =>
      have hcount : fw.fragTotal plan.payload ≤ 65535 :=
        Nat.le_of_not_lt fun hover => hfit ⟨plan, hsplit, hover⟩
      exact fragmentLoop_stamped hlaws plan (o.split_fragments hsplit).1 rfl hcount _
        fun i hi => List.mem_range.mp hi
  | none =>
      have hunstamped := hraw hsplit
      simp only [hflow, stampInPlace_of_unstamped hunstamped]
      refine ⟨Nat.one_pos, fun seqNum => ?_⟩
      obtain ⟨req, hreq, hbytes⟩ :=
        hreqs (putUint64 (putUint64 o.raw 40 (env.hashKey flow)) 48 seqNum)
      change (sendAll (o.reqs _)).Stamped (Carries env) (some (flow, seqNum))
      rw [hreq]
      exact ⟨⟨_, _, rfl, carries_stamped hunstamped flow seqNum hbytes⟩, trivial⟩

theorem flushBundles_stamped (hlaws : BundleLaws env) (bk : CoalBucket)
    (bundles : List (List Member)) :
    (flushBundles env fw bk bundles).Stamped (Carries env) none := by
  induction bundles with
  | nil => trivial
  | cons members rest ih =>
      rw [flushBundles]
      refine ⟨Nat.one_pos, fun seqNum => ?_⟩
      change (sendEncoded _ _ >>= fun _ => flushBundles env fw bk rest).Stamped _ _
      refine Prog.Stamped.bind (sendEncoded_stamped ?_) fun _ => ih
      intro datagram hdatagram
      exact hlaws.stamped hdatagram

theorem flushBuckets_stamped (hlaws : BundleLaws env) (maxMembers : Nat)
    (buckets : List CoalBucket) :
    (flushBuckets env fw maxMembers buckets).Stamped (Carries env) none := by
  induction buckets with
  | nil => trivial
  | cons bk rest ih => exact (flushBundles_stamped hlaws bk _).bind fun _ => ih

theorem reserveAdmission_stamped (checked : CheckedBEEF) (src : NetAddr) :
    (reserveAdmission env fw checked src).Stamped (Carries env) none := by
  rw [reserveAdmission]
  split
  · rename_i hfragments
    refine ⟨?_, fun _ => trivial⟩
    exact (Chunks.lt_chunkCount_iff hfragments.1).mpr
      (by rw [Nat.zero_mul]; exact Nat.lt_trans hfragments.1 hfragments.2)
  · apply Prog.Stamped.bind
    · rw [stampInPlace]
      split
      · exact ⟨Nat.one_pos, fun _ => trivial⟩
      · split <;> trivial
    · exact fun _ => trivial

/-- Without a bridging engine every datagram is queued under a number of its own. -/
theorem Job.stamped (hfrag : FragmentLaws env) (hbundle : BundleLaws env) {plane : Plane}
    {prog : Emit PUnit} (hjob : Job env fw (· = none) plane prog) :
    prog.Stamped (Carries env) none := by
  cases hjob with
  | tx hbridging hraw hfit =>
      subst hbridging
      exact Outgoing.program_stamped hfrag rfl
        (fun hsplit => hraw (not_fragments_of_splitOf hsplit)) hfit fun _ => ⟨_, rfl, rfl⟩
  | block hraw hfit =>
      exact Outgoing.program_stamped hfrag rfl
        (fun hsplit => hraw (not_fragments_of_splitOf hsplit)) hfit fun _ => ⟨_, rfl, rfl⟩
  | anchor hraw =>
      refine Outgoing.program_stamped hfrag rfl (fun _ => hraw) ?_ fun _ => ⟨_, rfl, rfl⟩
      rintro ⟨plan, hplan, _⟩
      cases hplan
  | subtreeData hraw hfit =>
      exact Outgoing.program_stamped hfrag rfl
        (fun hsplit => hraw (not_fragments_of_splitOf hsplit)) hfit fun _ => ⟨_, rfl, rfl⟩
  | beef hgroup hraw hfit =>
      exact Outgoing.program_stamped hfrag rfl
        (fun hsplit => hraw (not_fragments_of_splitOf hsplit)) hfit fun _ => ⟨_, rfl, rfl⟩
  | flush hcoal => exact flushBuckets_stamped hbundle _ _
  | admission hgroup => exact (reserveAdmission_stamped _ _).bind fun _ => trivial

end Jobs

section Integrity

variable {W : Type} [DecidableEq W]

/-- The workers of a proxy on their shared counters, each with an egress of its
own.  Every target of an egress has the same queue: the worker's outbox. -/
abbrev Workers (W : Type) := Machine W (Fin chainStripes) ChainKey EnqueueReq

/-- What holds of the SeqNums after any interleaving of the workers' steps, whatever
bridging engine is published at any of them. -/
structure SequenceIntegrity (env : Env) (fw : Forwarder) (m : Workers W) : Prop where
  /-- The numbers issued on a flow count up from one, modulo the counter's width. -/
  counts_up : ∀ key, issued m.log key =
    (List.range (total m.log key)).map fun i => UInt64.ofNat (i + 1)
  /-- Below the counter's width they are exactly one to their number. -/
  gapless : ∀ key, total m.log key < 2 ^ 64 →
    (issued m.log key).map UInt64.toNat = List.range' 1 (total m.log key)
  /-- The flow's counter is how many were issued. -/
  counter : ∀ key, lastSeq m.registry key = UInt64.ofNat (total m.log key)
  /-- A reservation of `n` is `n` consecutive numbers. -/
  block : ∀ grant ∈ m.log, total m.log grant.key < 2 ^ 64 →
    grant.numbers.map UInt64.toNat = List.range' grant.first.toNat grant.count
  /-- No number of a flow is in two reservations. -/
  disjoint : ∀ key, total m.log key < 2 ^ 64 →
    (m.log.filter fun grant => grant.key = key).Pairwise fun earlier later =>
      List.Disjoint earlier.numbers later.numbers
  /-- The next step, whichever it is, issues on one flow at most and leaves the
  counters of all others. -/
  separate : ∀ m', Step ChainKey.stripe (AnyJob env fw fun _ => True) m m' → ∀ key,
    lastSeq m'.registry key = lastSeq m.registry key ∨
      ∃ grant, m'.log = m.log ++ [grant] ∧ grant.key = key
  /-- Steps of different planes never number on one flow. -/
  planes : ∀ {plane other prog prog' key}, Job env fw (fun _ => True) plane prog →
    Job env fw (fun _ => True) other prog' → prog.Reserves key → prog'.Reserves key →
    plane = other
  /-- With no bridging engine published, what a worker has queued carries the HashKey
  of a flow and the number the worker was issued for it. -/
  queued : Reachable ChainKey.stripe (AnyJob env fw (· = none)) m →
    ∀ worker, ∀ entry ∈ m.outbox worker, ∃ grant ∈ m.log,
      grant.owner = worker ∧ entry.1 = some grant ∧ Carries env grant.key grant.first entry.2
  /-- Each queue then has the datagrams of a flow in the order of their SeqNums. -/
  increasing : Reachable ChainKey.stripe (AnyJob env fw (· = none)) m →
    ∀ worker key, total m.log key < 2 ^ 64 →
      (m.keyOutputs worker key).Pairwise fun earlier later =>
        (uint64At earlier.2.raw 48).toNat < (uint64At later.2.raw 48).toNat

variable {env : Env} {fw : Forwarder}

theorem AnyJob.stamped (hfrag : FragmentLaws env) (hbundle : BundleLaws env)
    {prog : Emit PUnit} (hjob : AnyJob env fw (· = none) prog) :
    prog.Stamped (Carries env) none := by
  obtain ⟨plane, hplane⟩ := hjob
  exact hplane.stamped hfrag hbundle

theorem queued_grant (hfrag : FragmentLaws env) (hbundle : BundleLaws env) {m : Workers W}
    (hreach : Reachable ChainKey.stripe (AnyJob env fw (· = none)) m) {worker : W}
    {entry : Option (Grant W ChainKey) × EnqueueReq} (hentry : entry ∈ m.outbox worker) :
    ∃ grant ∈ m.log, grant.owner = worker ∧ entry.1 = some grant ∧
      Carries env grant.key grant.first entry.2 := by
  have hworker := hreach.stamped (fun _ => AnyJob.stamped hfrag hbundle) worker
  obtain ⟨grant, hmark, hcarries⟩ := hworker.2 entry hentry
  have hmem : grant ∈ m.marks worker :=
    List.mem_append_left _ (List.mem_filterMap.mpr ⟨entry, hentry, hmark⟩)
  obtain ⟨hlog, howner⟩ : grant ∈ m.log ∧ grant.owner = worker := by
    simpa using (hreach.ordered worker).mem hmem
  exact ⟨grant, hlog, howner, hmark, hcarries⟩

/-- Sequence integrity of every flow, for any number of workers and any
interleaving of their steps. -/
theorem sequence_integrity (hfrag : FragmentLaws env) (hbundle : BundleLaws env)
    {m : Workers W} (hreach : Reachable ChainKey.stripe (AnyJob env fw fun _ => True) m) :
    SequenceIntegrity env fw m where
  counts_up := hreach.accounted.contiguous.issued_eq
  gapless _ hbound := hreach.accounted.contiguous.issued_toNat hbound
  counter := hreach.accounted.counted
  block _ hmem hbound := hreach.accounted.contiguous.numbers_toNat hmem hbound
  disjoint _ hbound := hreach.accounted.contiguous.disjoint hbound
  separate _ hstep key := step_value hreach.accounted hstep key
  planes hjob hjob' hreserves hreserves' :=
    Plane.eq_of_owns (hjob.owns hreserves) (hjob'.owns hreserves')
  queued halone _ _ hentry := queued_grant hfrag hbundle halone hentry
  increasing halone worker key hbound := by
    have hmarks := halone.queued_increasing (fun _ => AnyJob.stamped hfrag hbundle) worker
      hbound
    refine hmarks.imp_of_mem ?_
    intro earlier later hearlier hlater hordered
    obtain ⟨first, _, _, hfirst, _, hseq⟩ :=
      queued_grant hfrag hbundle halone (List.mem_filter.mp hearlier).1
    obtain ⟨second, _, _, hsecond, _, hseq'⟩ :=
      queued_grant hfrag hbundle halone (List.mem_filter.mp hlater).1
    rw [hseq, hseq']
    exact hordered first second hfirst hsecond

end Integrity

section Sample

open Reference

/-- One job of the sample flow: stamp and send an unstamped transaction. -/
def sampleJob (bridging : Option Engine) : Emit PUnit :=
  (txOut forwarder bridging (sampleFrame (sampleID 0xAB) (sampleTx 0))
    ⟨frameVerV2, sampleID 0xAB, 0, zeroHash, sampleTx 0⟩ (some (source 1))).program
    Reference.env

theorem anyJob_sampleJob {published : Option Engine → Prop} {bridging : Option Engine}
    (hbridging : published bridging) :
    AnyJob Reference.env forwarder published (sampleJob bridging) := by
  refine ⟨.tx, .tx hbridging (fun _ => ⟨?_, encodeFields_seqNum _ _⟩) ?_⟩
  · rw [sampleFrame, length_encodeFields]
    omega
  · rintro ⟨plan, hplan, _⟩
    cases hplan

def twoWorkers (bridging : Option Engine) : Workers Bool :=
  (Machine.initial.setPhase false (.running none (sampleJob bridging))).setPhase true
    (.running none (sampleJob bridging))

/-- Both workers look the flow's counter up before either adds to it, and the
one that started last adds first. -/
def racedWorkers (bridging : Option Engine) : Workers Bool :=
  (twoWorkers bridging).schedule ChainKey.stripe
    [false, true, true, false, false, true, false, true]

theorem reachable_racedWorkers {published : Option Engine → Prop} {bridging : Option Engine}
    (hbridging : published bridging) :
    Reachable ChainKey.stripe (AnyJob Reference.env forwarder published)
      (racedWorkers bridging) := by
  have hfirst : Reachable ChainKey.stripe (AnyJob Reference.env forwarder published)
      ((Machine.initial : Workers Bool).setPhase false (.running none (sampleJob bridging))) :=
    Reachable.initial.step (.start rfl (anyJob_sampleJob hbridging))
  exact Reachable.schedule (hfirst.step (.start rfl (anyJob_sampleJob hbridging))) _

def sampleFlow : ChainKey := ⟨addrToIPv6 (source 1), 0xAB, zeroHash⟩

/-- Alone, and with a successor of nine bits published, for which each frame is
queued twice under its one number. -/
theorem sequence_integrity_raced :
    (issued (racedWorkers none).log sampleFlow = [1, 2] ∧
      ((racedWorkers none).keyOutputs false sampleFlow).Pairwise (fun earlier later =>
        (uint64At earlier.2.raw 48).toNat < (uint64At later.2.raw 48).toNat) ∧
      ((racedWorkers none).outbox false).map (fun entry => uint64At entry.2.raw 48) = [2]) ∧
    SequenceIntegrity Reference.env forwarder
      (racedWorkers (some (engine 9 (by decide)))) ∧
      issued (racedWorkers (some (engine 9 (by decide)))).log sampleFlow = [1, 2] ∧
      ((racedWorkers (some (engine 9 (by decide)))).outbox true).map
        (fun entry => uint64At entry.2.raw 48) = [1, 1] := by
  have halone : SequenceIntegrity Reference.env forwarder (racedWorkers none) :=
    sequence_integrity fragmentLaws bundleLaws (reachable_racedWorkers trivial)
  refine ⟨⟨by decide +kernel, ?_, by decide +kernel⟩,
    sequence_integrity fragmentLaws bundleLaws (reachable_racedWorkers trivial),
    by decide +kernel, by decide +kernel⟩
  exact halone.increasing (reachable_racedWorkers rfl) false sampleFlow (by decide +kernel)

end Sample

end ShardProxy
