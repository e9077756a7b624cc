/-
The lane as it handles memory.  Nothing is copied on the way through: a frame is stamped
in the receive buffer it arrived in, the queue and the coalescing buffer keep slices of
such buffers, fragments are written into buffers of a pool, and what the queue shows is
read when it is flushed.  Only the tee and the mirror take copies, as datagrams are
queued.
-/
import ShardProxy.TcpConnection
import ShardProxy.Lib.Stateful
import ShardProxy.Lib.SliceHeap

namespace ShardProxy

open ByteField Chunks Dispenser SliceHeap Stateful

/-- A queued datagram as a slice, with the pool buffer it is in, if it is in one. -/
structure SliceReq where
  raw : Slice
  dst : UDPAddr
  groupIdx : UInt32
  ctrlLabel : String
  teeable : Bool
  pooled : Option Nat
deriving DecidableEq

/-- The datagram a slice shows. -/
def SliceReq.shows (heap : Heap UInt8) (req : SliceReq) : EnqueueReq :=
  ⟨heap.read req.raw, req.dst, req.groupIdx, req.ctrlLabel, req.teeable, req.pooled.isSome⟩

/-- A waiting transaction as a slice of the frame it came in. -/
structure SliceMember where
  txID : Hash32
  tx : Slice
deriving DecidableEq

def SliceMember.shows (heap : Heap UInt8) (member : SliceMember) : Member :=
  ⟨member.txID, heap.read member.tx⟩

structure SliceBucket where
  ip : IPv6
  group : UInt32
  subtree : Hash32
  members : List SliceMember
deriving DecidableEq

def SliceBucket.shows (heap : Heap UInt8) (bk : SliceBucket) : CoalBucket :=
  ⟨bk.ip, bk.group, bk.subtree, bk.members.map (SliceMember.shows heap)⟩

def SliceBucket.flow (bk : SliceBucket) : ChainKey :=
  ⟨bk.ip, bk.group, bk.subtree⟩

structure SliceCoal where
  buckets : List SliceBucket
  maxMembers : Nat
  maxMembers_pos : 0 < maxMembers
  maxMembers_le : maxMembers ≤ bundleMaxMembers

def SliceCoal.shows (heap : Heap UInt8) (coal : SliceCoal) : CoalBuffer :=
  ⟨coal.buckets.map (SliceBucket.shows heap), coal.maxMembers, coal.maxMembers_pos,
    coal.maxMembers_le⟩

def newSliceCoal (maxMembers : Int) : SliceCoal :=
  let coal := newCoalBuffer maxMembers
  ⟨[], coal.maxMembers, coal.maxMembers_pos, coal.maxMembers_le⟩

/-- Append a member to its flow's bucket, or open one at the end. -/
def addSlice (flow : ChainKey) (member : SliceMember) : List SliceBucket → List SliceBucket
  | [] => [⟨flow.ip, flow.grp, flow.sub, [member]⟩]
  | bk :: rest =>
      if bk.group = flow.grp ∧ bk.ip = flow.ip ∧ bk.subtree = flow.sub then
        { bk with members := bk.members ++ [member] } :: rest
      else bk :: addSlice flow member rest

def SliceCoal.add (coal : SliceCoal) (flow : ChainKey) (member : SliceMember) : SliceCoal :=
  { coal with buckets := addSlice flow member coal.buckets }

def SliceCoal.reset (coal : SliceCoal) : SliceCoal :=
  { coal with buckets := [] }

/-- The members of the next bundle and what is left; only lengths are looked at. -/
def takeSlices (overhead : Nat) (maxBytes : Int) (maxMembers : Nat) :
    Nat → Nat → List SliceMember → List SliceMember × List SliceMember
  | _, _, [] => ([], [])
  | count, size, member :: rest =>
      let add := overhead + member.tx.len
      if count < maxMembers ∧ ¬ (0 < count ∧ maxBytes < ((size + add : Nat) : Int)) then
        let (taken, left) := takeSlices overhead maxBytes maxMembers (count + 1)
          (size + add) rest
        (member :: taken, left)
      else ([], member :: rest)

def packSlices (overhead : Nat) (maxBytes : Int) (maxMembers : Nat) :
    Nat → List SliceMember → List (List SliceMember)
  | 0, _ => []
  | _ + 1, [] => []
  | rounds + 1, members =>
      let (taken, left) := takeSlices overhead maxBytes maxMembers 0 bundleHeaderSize members
      taken :: packSlices overhead maxBytes maxMembers rounds left

/-- What a lane works on: the buffers, what it shares with other lanes, its egress with
the queue, the coalescing buffer and the pool, and the copies of the tee and the mirror.
`pooled` are the pool buffers in the queue, `gets` counts what was asked of the pool. -/
structure MemState where
  heap : Heap UInt8
  shared : Shared
  queue : List SliceReq
  coal : Option SliceCoal
  free : List Nat
  pooled : List Nat
  gets : Nat
  teed : List Bytes
  mirrored : List Bytes

/-- A new egress over some buffers; `armed` is the bound of its coalescing buffer, if it
has one. -/
def MemState.start (heap : Heap UInt8) (shared : Shared) (armed : Option Int) : MemState where
  heap := heap
  shared := shared
  queue := []
  coal := armed.map newSliceCoal
  free := []
  pooled := []
  gets := 0
  teed := []
  mirrored := []

/-- How an egress was set up, and which free buffer the pool hands out, if any. -/
structure EgressOpts where
  tee : Bool
  mirror : Bool
  pick : Nat → List Nat → Option Nat

/-- What a flush puts out: the datagrams for the targets, and the copies the tee and the
mirror took of them. -/
structure Written where
  queue : List EnqueueReq
  teed : List Bytes
  mirrored : List Bytes

abbrev Mem (A : Type) : Type := Comp MemState Drop A

namespace Mem

/-- What the lane shares, as the forwarder's own steps find it. -/
def view (s : MemState) : FwState where
  chains := s.shared.chains
  stores := s.shared.stores
  beefLimit := s.shared.beefLimit
  bridging := s.shared.bridging
  queue := []
  coal := none

/-- A step of the forwarder that has to do with what is shared only. -/
def shares {A : Type} (x : Fw A) : Mem A := fun s =>
  ((x (view s)).1, { s with shared := (x (view s)).2.shared })

def fail {A : Type} (drop : Drop) : Mem A := Comp.check (.error drop)

def read (slice : Slice) : Mem Bytes := fun s => (.ok (s.heap.read slice), s)

def edit (slice : Slice) (change : Bytes → Bytes) : Mem Unit := fun s =>
  (.ok (), { s with heap := s.heap.edit slice change })

def alloc (bytes : Bytes) : Mem Slice := fun s =>
  (.ok ⟨s.heap.next, 0, bytes.length⟩, { s with heap := s.heap.alloc bytes })

section Egress

variable (fw : Forwarder) (opts : EgressOpts)

/-- Queue a slice; the tee and the mirror copy what it shows now. -/
def enqueue (req : SliceReq) : Mem Unit := fun s =>
  (.ok (), { s with
    queue := s.queue ++ [req]
    pooled := s.pooled ++ req.pooled.toList
    teed := if opts.tee ∧ req.teeable then s.teed ++ [s.heap.read req.raw] else s.teed
    mirrored := if opts.mirror ∧ req.ctrlLabel = "" then s.mirrored ++ [s.heap.read req.raw]
      else s.mirrored })

def enqueueData (raw : Slice) (dst : UDPAddr) (groupIdx : UInt32) : Mem Unit :=
  enqueue opts ⟨raw, dst, groupIdx, "", true, none⟩

def enqueueControl (raw : Slice) (dst : UDPAddr) (label : String) : Mem Unit :=
  enqueue opts ⟨raw, dst, 0, label, false, none⟩

def enqueueCacheable (raw : Slice) (dst : UDPAddr) (label : String) : Mem Unit :=
  enqueue opts ⟨raw, dst, 0, label, true, none⟩

def poolSize : Nat := headerSizeV3 + fw.fragDataSize

/-- `PoolGet`: any of the free buffers, or a new one. -/
def poolGet : Mem Nat := fun s =>
  let s := { s with gets := s.gets + 1 }
  match opts.pick s.gets s.free with
  | some i =>
      match s.free[i]? with
      | some buf => (.ok buf, { s with free := s.free.eraseIdx i })
      | none => (.ok s.heap.next, { s with heap := s.heap.alloc (List.replicate (poolSize fw) 0) })
  | none => (.ok s.heap.next, { s with heap := s.heap.alloc (List.replicate (poolSize fw) 0) })

def poolPut (buf : Nat) : Mem Unit := fun s => (.ok (), { s with free := buf :: s.free })

/-- `Flush`: the targets get what the queue shows, the copies of the tee and the mirror
leave, and the pool buffers are free again. -/
def flush (s : MemState) : Written × MemState :=
  (⟨s.queue.map (SliceReq.shows s.heap), s.teed, s.mirrored⟩,
    { s with
      queue := []
      free := s.pooled ++ s.free
      pooled := []
      teed := []
      mirrored := [] })

end Egress

section Paths

variable (env : Env) (fw : Forwarder) (opts : EgressOpts)

def nextSeq (flow : ChainKey) : Mem (UInt64 × UInt64) :=
  shares (Fw.emit (ShardProxy.nextSeq env flow))

/-- Stamp a frame where it lies. -/
def stampInPlace (raw : Slice) (flow : ChainKey) : Mem Unit := do
  let bytes ← read raw
  if uint64At bytes 48 = 0 then do
    let (hashKey, seqNum) ← nextSeq env flow
    edit raw fun bytes => putUint64 bytes 40 hashKey
    edit raw fun bytes => putUint64 bytes 48 seqNum
  else if uint64At bytes 40 = 0 ∨ fw.stampSource then
    edit raw fun bytes => putUint64 bytes 40 (env.hashKey flow)
  else pure ()

/-- Queue one fragment for the group of its plan. -/
def enqueueFragment (plan : FragPlan) (raw : Slice) (buf : Nat) : Mem Unit :=
  enqueue opts ⟨raw, plan.dst, plan.groupIdx, plan.ctrlLabel, true, some buf⟩

/-- Write one fragment into a buffer of the pool and queue it there; the buffer goes back
if the encoder refuses.  The data is read from the frame as it lies. -/
def fragmentStep (payload : Slice) (plan : FragPlan) (k i : Nat) : Mem Unit := do
  let (hashKey, seqNum) ← nextSeq env plan.flow
  let buf ← poolGet fw opts
  let data ← read payload
  let bytes ← read ⟨buf, 0, poolSize fw⟩
  match env.encodeFragment bytes
      (FragPlan.args fw { plan with payload := data } i k hashKey seqNum) with
  | none => poolPut buf
  | some (written, n) => do
      edit ⟨buf, 0, poolSize fw⟩ fun _ => withByte7 plan.byte7 written
      enqueueFragment opts plan ⟨buf, 0, n⟩ buf

def fragmentLoop (payload : Slice) (plan : FragPlan) (k : Nat) : List Nat → Mem Unit
  | [] => pure ()
  | i :: rest => do
      fragmentStep env fw opts payload plan k i
      fragmentLoop payload plan k rest

def fragmentWith (payload : Slice) (plan : FragPlan) : Mem Unit :=
  if 65535 < fw.fragTotal plan.payload then fail (.packet .fragOverflow)
  else fragmentLoop env fw opts payload plan (fw.fragTotal plan.payload)
    (List.range (fw.fragTotal plan.payload))

/-- The copy for the successor layout is a second slice of the same bytes. -/
def bridgeCopy (f : Frame) (groupIdx : UInt32) (raw : Slice) : Mem Unit := fun s =>
  match s.shared.bridging with
  | none => (.ok (), s)
  | some secondary =>
      let bridgeIdx := secondary.groupIndex f.txID
      if bridgeIdx ≠ groupIdx then enqueueData opts raw (fw.addrFor bridgeIdx) bridgeIdx s
      else (.ok (), s)

/-- Queue a whole transaction frame for its group and the successor's. -/
def enqueueTx (f : Frame) (groupIdx : UInt32) (raw : Slice) : Mem Unit := do
  enqueueData opts raw (fw.addrFor groupIdx) groupIdx
  bridgeCopy fw opts f groupIdx raw

/-- Whether a transaction waits for a bundle instead of leaving by itself. -/
def Coalesces (s : MemState) (payload : Bytes) : Prop :=
  fw.coalesce ∧ s.coal.isSome ∧ s.shared.bridging.isNone ∧
    ((bundleHeaderSize + env.memberOverhead fw.coalesceCarryTxid + payload.length : Nat) : Int) ≤
      fw.coalesceBudget

instance (s : MemState) (payload : Bytes) : Decidable (Coalesces env fw s payload) :=
  inferInstanceAs (Decidable (_ ∧ _))

def bufferMember (flow : ChainKey) (member : SliceMember) : Mem Unit := fun s =>
  (.ok (), { s with coal := s.coal.map fun coal => coal.add flow member })

/-- The payload of a frame with the long header, where it lies. -/
def payloadOf (raw : Slice) (payload : Bytes) : Slice :=
  raw.within headerSize payload.length

def emitTx (raw : Slice) (f : Frame) (src : Option NetAddr) : Mem Unit := fun s =>
  let groupIdx := fw.engine.groupIndex f.txID
  match src with
  | none => enqueueTx fw opts f groupIdx raw s
  | some src =>
      if f.version ≠ frameVerV2 then enqueueTx fw opts f groupIdx raw s
      else
        let ip := addrToIPv6 src
        if fw.fragments f.payload then
          fragmentWith env fw opts (payloadOf raw f.payload) (fragmentPlan fw f ip groupIdx) s
        else if Coalesces env fw s f.payload then
          bufferMember ⟨ip, groupIdx, f.subtreeID⟩ ⟨f.txID, payloadOf raw f.payload⟩ s
        else
          (do
            stampInPlace env fw raw ⟨ip, groupIdx, f.subtreeID⟩
            enqueueTx fw opts f groupIdx raw) s

def process (raw : Slice) (src : Option NetAddr) (verify : Bool) : Mem Unit := do
  let bytes ← read raw
  let f ← Comp.check (txGates env fw bytes verify)
  if f.version = frameVerV2 then shares (claimIngress fw f.txID "brc124")
  emitTx env fw opts raw f src

/-- A bare transaction is framed in a new buffer, which is all that is kept of it. -/
def dispatchBareTx (tx : Slice) (src : Option NetAddr) : Mem Unit := do
  let bytes ← read tx
  let framed ← Comp.check (bareTxGates env fw bytes)
  let raw ← alloc framed
  process env fw opts raw src false

def emitBlock (raw : Slice) (bytes : Bytes) (bf : BlockFrame) (src : Option NetAddr) : Mem Unit :=
  let send := enqueueCacheable opts raw (fw.controlAddr groupBlockBroadcast) "block_control"
  match src with
  | none => send
  | some src =>
      let ip := addrToIPv6 src
      if fw.fragments bf.payload then
        fragmentWith env fw opts (payloadOf raw bf.payload)
          (fragmentBlockPlan fw bytes bf ip (blockCtrlIdx bf))
      else do
        stampInPlace env fw raw ⟨ip, blockCtrlIdx bf, zeroHash⟩
        send

def processBlock (raw : Slice) (src : Option NetAddr) : Mem Unit := do
  let bytes ← read raw
  let bf ← Comp.check (blockGates env fw bytes)
  shares (claimIngress fw bf.contentID "brc131")
  emitBlock env fw opts raw bytes bf src

def emitAnchor (raw : Slice) (src : Option NetAddr) : Mem Unit :=
  let send := enqueueCacheable opts raw (fw.controlAddr groupBlockBroadcast) "anchor"
  match src with
  | none => send
  | some src => do
      stampInPlace env fw raw ⟨addrToIPv6 src, groupAnchorFlow.toUInt32, zeroHash⟩
      send

def processAnchor (raw : Slice) (src : Option NetAddr) : Mem Unit := do
  let bytes ← read raw
  let f ← Comp.check (anchorGates env bytes)
  shares (claimIngress fw f.txID "brc134")
  emitAnchor env fw opts raw src

def emitSubtreeData (raw : Slice) (bytes : Bytes) (sf : SubtreeDataFrame)
    (src : Option NetAddr) : Mem Unit :=
  let send := enqueueCacheable opts raw (fw.controlAddr groupSubtreeDataAnnounce) "subtree_data"
  let ctrlIdx := groupSubtreeDataAnnounce.toUInt32
  match src with
  | none => send
  | some src =>
      let ip := addrToIPv6 src
      if fw.fragments sf.payload then
        fragmentWith env fw opts (payloadOf raw sf.payload)
          (fragmentSubtreeDataPlan fw bytes sf ip ctrlIdx)
      else do
        stampInPlace env fw raw ⟨ip, ctrlIdx, sf.subtreeID⟩
        send

def processSubtreeData (raw : Slice) (src : Option NetAddr) : Mem Unit := do
  let bytes ← read raw
  let sf ← Comp.check (subtreeGates env fw bytes)
  shares (claimIngress fw sf.subtreeID "brc132")
  emitSubtreeData env fw opts raw bytes sf src

def processBundle (raw : Slice) : Mem Unit := do
  let bytes ← read raw
  Comp.check (bundleGates bytes)
  enqueueData opts raw (fw.addrFor (bundleGroup bytes)) (bundleGroup bytes)

/-- Byte 7 is written where the frame lies. -/
def setDeliverCount (bf : BEEFFrame) (raw : Slice) (src : Option NetAddr) (topics : Nat) :
    Mem BEEFFrame :=
  match src with
  | none => pure bf
  | some _ => do
      let deliver := UInt8.ofNat (beefDeliverCount fw src topics)
      edit raw fun bytes => bytes.set 7 deliver
      pure { bf with deliverCount := deliver }

/-- `checkBEEF`: the frame and its group. -/
def checkBEEF (raw : Slice) (src : Option NetAddr) (now : Time) (checkContentID : Bool) :
    Mem (BEEFFrame × UInt32) := do
  let bytes ← read raw
  let (engine, bf, topics) ← Comp.check (beefGates env fw bytes src)
  let bf ← setDeliverCount fw bf raw src topics
  shares (chargeBudget env src raw.len now)
  Comp.check (contentGate env bf src checkContentID)
  shares (claimBEEFIngress fw (beefClaimKey env bf.contentID bf.topicID) "brc148")
  pure (bf, engine.groupIndex bf.topicID)

def emitBEEF (raw : Slice) (bf : BEEFFrame) (groupIdx : UInt32) (src : Option NetAddr) :
    Mem Unit :=
  let send := enqueueData opts raw (fw.addrFor groupIdx) groupIdx
  match src with
  | none => send
  | some src =>
      let ip := addrToIPv6 src
      if fw.fragments bf.payload then
        fragmentWith env fw opts (payloadOf raw bf.payload) (fragmentBEEFPlan fw bf ip groupIdx)
      else do
        stampInPlace env fw raw ⟨ip, groupIdx, zeroHash⟩
        send

def processBEEF (raw : Slice) (src : Option NetAddr) (now : Time) (checkContentID : Bool) :
    Mem Unit := do
  let (bf, groupIdx) ← checkBEEF env fw raw src now checkContentID
  emitBEEF env fw opts raw bf groupIdx src

/-- A record was framed in a new buffer when it was prepared. -/
def dispatchBEEF (p : PreparedBEEF) (src : Option NetAddr) (now : Time) : Mem Unit :=
  match p.frame with
  | none => fail (.submission p.result)
  | some frame => do
      let raw ← alloc frame
      processBEEF env fw opts raw src now false

/-- `DispatchClass` -/
def dispatchClass (raw : Slice) (src : Option NetAddr) (now : Time) (cls : IngressClass) :
    Mem Unit := do
  let bytes ← read raw
  if ¬ framed bytes then
    if 2 ≤ bytes.length ∧ uint16At bytes 0 = beefRecordTag then
      dispatchBEEF env fw opts (prepareBEEF env fw bytes src) src now
    else if cls = .beef then fail (.packet .nonBEEFOnBEEFLane)
    else dispatchBareTx env fw opts raw src
  else if versionByte bytes = some frameVerV4 then
    if cls ≠ .privileged then fail (.privileged (privilegedFrameType bytes))
    else processBlock env fw opts raw src
  else if versionByte bytes = some frameVerV5 then
    if cls ≠ .privileged then fail (.privileged (privilegedFrameType bytes))
    else processSubtreeData env fw opts raw src
  else if versionByte bytes = some frameVerV6 then
    if cls = .beef then fail (.packet .nonBEEFOnBEEFLane) else processAnchor env fw opts raw src
  else if versionByte bytes = some frameVerV9 then processBEEF env fw opts raw src now true
  else if versionByte bytes = some frameVerV8 then
    if cls = .beef then fail (.packet .nonBEEFOnBEEFLane) else processBundle fw opts raw
  else if cls = .beef then fail (.packet .nonBEEFOnBEEFLane)
  else process env fw opts raw src fw.verifyPayloadHash

/-- Encode one bundle of a bucket's members, as they lie, into a new buffer. -/
def flushBundle (bk : SliceBucket) (members : List SliceMember) : Mem Unit := do
  let (hashKey, seqNum) ← nextSeq env bk.flow
  fun s =>
    match env.encodeBundle (bundleOf fw (bk.shows s.heap)
        (members.map (SliceMember.shows s.heap)) hashKey seqNum) with
    | none => (.ok (), s)
    | some bytes =>
        (do
          let raw ← alloc bytes
          enqueueData opts raw (fw.addrFor bk.group) bk.group) s

def flushBundles (bk : SliceBucket) : List (List SliceMember) → Mem Unit
  | [] => pure ()
  | members :: rest => do
      flushBundle env fw opts bk members
      flushBundles bk rest

def flushBuckets (maxMembers : Nat) : List SliceBucket → Mem Unit
  | [] => pure ()
  | bk :: rest => do
      flushBundles env fw opts bk
        (packSlices (env.memberOverhead fw.coalesceCarryTxid) fw.bundleBudget maxMembers
          bk.members.length bk.members)
      flushBuckets maxMembers rest

def resetCoal : Mem Unit := fun s =>
  (.ok (), { s with coal := s.coal.map SliceCoal.reset })

/-- `FlushCoalesced` -/
def flushCoalesced : Mem Unit := fun s =>
  match s.coal with
  | none => (.ok (), s)
  | some coal =>
      (do
        flushBuckets env fw opts coal.maxMembers coal.buckets
        resetCoal) s

end Paths

end Mem

end ShardProxy
