/-
How the forwarder numbers and cuts what it sends.  Every emitting path draws
its SeqNums from one striped counter map; stamping a whole frame, splitting a
payload into BRC-130 fragments and packing a BRC-142 bundle are programs that
reserve numbers and queue datagrams.
-/
import ShardProxy.Lib.Chunks
import ShardProxy.Lib.Dispenser
import ShardProxy.RateLimit

namespace ShardProxy

open ByteField Chunks Dispenser

/-- The shard derivation engine.  A group index of a transaction has at most
`shardBits` bits, and there are at most twelve of those. -/
structure Engine where
  shardBits : Nat
  mcPrefix : UInt16
  mcGroupID : UInt16
  groupIndex : Hash32 → UInt32
  shardBits_le : shardBits ≤ 12
  groupIndex_lt : ∀ id, (groupIndex id).toNat < 2 ^ shardBits

/-- The derivation engine of the BEEF plane, with its own band of indices. -/
structure PlaneEngine where
  groupIndex : Hash32 → UInt32
  groupIndex_band : ∀ topic,
    0x1000 ≤ (groupIndex topic).toNat ∧ (groupIndex topic).toNat ≤ 0x1FFF

def groupAddr (mcPrefix mcGroupID idx : UInt16) : GroupAddr :=
  ⟨mcPrefix, mcGroupID, idx⟩

/-- The destination of a group index: its low sixteen bits in the address. -/
def Engine.addr (engine : Engine) (idx : UInt32) (port : Nat) : UDPAddr :=
  ⟨groupAddr engine.mcPrefix engine.mcGroupID idx.toUInt16, port⟩

/-- The deliverable-topic and object-size policy of an authenticated path. -/
structure BEEFSubmitPolicy where
  deliverCount : Bytes → Nat → Int
  maxObjectBytes : Option Bytes → Int

/-- A dedup store and the key space claims are made in. -/
structure DedupRef where
  store : Nat
  keySpace : String
deriving DecidableEq

/-- The configuration of a forwarder; it does not change while workers run. -/
structure Forwarder where
  engine : Engine
  mcPrefix : UInt16
  mcGroupID : UInt16
  egressPort : Nat
  fragDataSize : Nat
  stampSource : Bool
  coalesce : Bool
  coalesceBudget : Int
  coalesceMaxMembers : Int
  coalesceCarryTxid : Bool
  requireBlockPoW : Bool
  powFloor : Option Nat
  requireEF : Bool
  allowStampedIngress : Bool
  verifyPayloadHash : Bool
  verifySubtreeRoot : Bool
  txDedup : Option DedupRef
  beefDedup : Option DedupRef
  beefEngine : Option PlaneEngine
  beefMaxObject : Int
  beefPolicy : Option BEEFSubmitPolicy

/-- `New`: everything optional is off. -/
def newForwarder (engine : Engine) (mcPrefix mcGroupID : UInt16) (egressPort : Nat) :
    Forwarder where
  engine := engine
  mcPrefix := mcPrefix
  mcGroupID := mcGroupID
  egressPort := egressPort
  fragDataSize := 0
  stampSource := false
  coalesce := false
  coalesceBudget := 0
  coalesceMaxMembers := 0
  coalesceCarryTxid := false
  requireBlockPoW := false
  powFloor := none
  requireEF := false
  allowStampedIngress := false
  verifyPayloadHash := false
  verifySubtreeRoot := false
  txDedup := none
  beefDedup := none
  beefEngine := none
  beefMaxObject := 0
  beefPolicy := none

/-- Fragmentation for a path MTU; an MTU without room for data turns it off. -/
def Forwarder.setFragMTU (fw : Forwarder) (mtu : Int) : Forwarder :=
  { fw with
    fragDataSize := if (ipv6UDPOverhead : Int) < mtu then (mtu - ipv6UDPOverhead).toNat
      else 0 }

/-- Coalescing within a path MTU, from which the IP and UDP headers come off. -/
def Forwarder.setCoalesce (fw : Forwarder) (enabled : Bool) (maxBytes maxMembers : Int)
    (carryTxid : Bool) : Forwarder :=
  { fw with
    coalesce := enabled
    coalesceBudget :=
      (if maxBytes ≤ 0 then (defaultCoalesceMaxBytes : Int) else maxBytes) -
        ipv6UDPHeaderSize
    coalesceMaxMembers := maxMembers
    coalesceCarryTxid := carryTxid }

/-- The destination of a group index of either plane. -/
def Forwarder.addrFor (fw : Forwarder) (idx : UInt32) : UDPAddr :=
  fw.engine.addr idx fw.egressPort

def Forwarder.controlAddr (fw : Forwarder) (idx : UInt16) : UDPAddr :=
  ⟨groupAddr fw.mcPrefix fw.mcGroupID idx, fw.egressPort⟩

/-- A group index is in the address with its low sixteen bits. -/
theorem addrFor_idx (fw : Forwarder) {idx : UInt32} (hidx : idx.toNat < 2 ^ 16) :
    (fw.addrFor idx).ip.idx.toNat = idx.toNat := by
  change idx.toUInt16.toNat = _
  rw [UInt32.toNat_toUInt16]
  exact Nat.mod_eq_of_lt hidx

theorem shardIndex_lt (engine : Engine) {idx : UInt32}
    (hidx : idx.toNat < 2 ^ engine.shardBits) : idx.toNat < 2 ^ 12 :=
  Nat.lt_of_lt_of_le hidx (Nat.pow_le_pow_right (by decide) engine.shardBits_le)

theorem addrFor_groupIndex_ne (fw : Forwarder) {left right : Engine} {id : Hash32}
    (hindex : left.groupIndex id ≠ right.groupIndex id) :
    fw.addrFor (left.groupIndex id) ≠ fw.addrFor (right.groupIndex id) := by
  intro hsame
  have hsmall : ∀ engine : Engine, (engine.groupIndex id).toNat < 2 ^ 16 := fun engine =>
    Nat.lt_trans (shardIndex_lt engine (engine.groupIndex_lt id)) (by decide)
  apply hindex
  apply UInt32.toNat_inj.mp
  rw [← addrFor_idx fw (hsmall left), ← addrFor_idx fw (hsmall right), hsame]

/-- One flow: sender address, group index and 32-byte ingredient. -/
structure ChainKey where
  ip : IPv6
  grp : UInt32
  sub : Hash32
deriving DecidableEq

def chainStripes : Nat := 64

def fnv1a32 (bytes : Bytes) : UInt32 :=
  bytes.foldl (fun hash byte => (hash ^^^ byte.toUInt32) * 16777619) 2166136261

/-- The stripe of a sender address: its FNV-1a hash under the stripe mask. -/
def stripeIndex (ip : IPv6) : Fin chainStripes :=
  ⟨(fnv1a32 ip.bytes &&& 63).toNat, by
    have hmask : (fnv1a32 ip.bytes &&& 63).toNat ≤ 63 := by
      rw [UInt32.toNat_and]
      exact Nat.and_le_right
    exact Nat.lt_succ_of_le hmask⟩

/-- The striped counter map; a flow lives in its sender's stripe. -/
abbrev Chains := Registry (Fin chainStripes) ChainKey

def ChainKey.stripe (key : ChainKey) : Fin chainStripes := stripeIndex key.ip

/-- `addrToIPv6`: the sixteen bytes of a UDP or TCP source, else zeros. -/
def addrToIPv6 : NetAddr → IPv6
  | .udp ip _ _ => FixedBytes.copy 16 ((ip.bind to16).getD [])
  | .tcp ip _ _ => FixedBytes.copy 16 ((ip.bind to16).getD [])
  | .ip _ _ => FixedBytes.zero 16
  | .other _ => FixedBytes.zero 16

/-- One datagram queued for every target, with what is remembered about it. -/
structure EnqueueReq where
  raw : Bytes
  dst : UDPAddr
  groupIdx : UInt32
  ctrlLabel : String
  teeable : Bool
  pooled : Bool
deriving DecidableEq

def enqueueData (raw : Bytes) (dst : UDPAddr) (groupIdx : UInt32) : EnqueueReq :=
  ⟨raw, dst, groupIdx, "", true, false⟩

def enqueueCacheable (raw : Bytes) (dst : UDPAddr) (label : String) : EnqueueReq :=
  ⟨raw, dst, 0, label, true, false⟩

/-- A program of the forwarder: it reserves SeqNums and queues datagrams. -/
abbrev Emit := Prog ChainKey EnqueueReq

def send (req : EnqueueReq) : Emit PUnit :=
  .emit req (.done ⟨⟩)

def sendEncoded (req : Bytes → EnqueueReq) : Option Bytes → Emit PUnit
  | none => pure ⟨⟩
  | some datagram => send (req datagram)

section Programs

variable (env : Env) (fw : Forwarder)

def Env.hashKey (key : ChainKey) : UInt64 :=
  env.seqHash key.ip key.grp key.sub

/-- Reserve `n` consecutive SeqNums: the flow's HashKey and the first of them. -/
def reserveSeq (key : ChainKey) (n : Nat) : Emit (UInt64 × UInt64) :=
  .reserve key n fun first => .done (env.hashKey key, first)

def nextSeq (key : ChainKey) : Emit (UInt64 × UInt64) :=
  reserveSeq env key 1

/-- Stamp HashKey and SeqNum into a frame.  A SeqNum the sender wrote is kept,
and then HashKey is written only when it is zero or the source is stamped. -/
def stampInPlace (raw : Bytes) (key : ChainKey) : Emit Bytes :=
  if uint64At raw 48 = 0 then do
    let (hashKey, seqNum) ← nextSeq env key
    pure (putUint64 (putUint64 raw 40 hashKey) 48 seqNum)
  else if uint64At raw 40 = 0 ∨ fw.stampSource then
    pure (putUint64 raw 40 (env.hashKey key))
  else pure raw

/-- What one fragmented frame is split by: its payload, the two identifier
slots, the flow, the version tag and byte 7, and where the pieces go. -/
structure FragPlan where
  payload : Bytes
  id : Hash32
  second : Hash32
  flow : ChainKey
  origFrameVer : UInt8
  byte7 : Option UInt8
  dst : UDPAddr
  groupIdx : UInt32
  ctrlLabel : String

def Forwarder.fragTotal (payload : Bytes) : Nat :=
  chunkCount payload.length fw.fragDataSize

/-- Whether a payload is over the capacity of one datagram. -/
def Forwarder.fragments (payload : Bytes) : Prop :=
  0 < fw.fragDataSize ∧ fw.fragDataSize < payload.length

instance (payload : Bytes) : Decidable (fw.fragments payload) :=
  inferInstanceAs (Decidable (_ ∧ _))

/-- The arguments of fragment `i` of `k`. -/
def FragPlan.args (plan : FragPlan) (i k : Nat) (hashKey seqNum : UInt64) : FragmentArgs where
  txID := plan.id
  subtreeID := plan.second
  hashKey := hashKey
  seqNum := seqNum
  origPayloadLen := UInt32.ofNat plan.payload.length
  fragIndex := UInt16.ofNat i
  fragTotal := UInt16.ofNat k
  origFrameVer := plan.origFrameVer
  fragData := chunk plan.payload fw.fragDataSize i

def FragPlan.enqueue (plan : FragPlan) (datagram : Bytes) : EnqueueReq :=
  ⟨datagram, plan.dst, plan.groupIdx, plan.ctrlLabel, true, true⟩

/-- Write fragment `i` of `k` into a buffer and put byte 7 in: the datagram, or
nothing when the encoder refused. -/
def encodePlanned (plan : FragPlan) (buf : Bytes) (i k : Nat) (hashKey seqNum : UInt64) :
    Option Bytes :=
  match env.encodeFragment buf (plan.args fw i k hashKey seqNum) with
  | none => none
  | some (buf, n) => some ((withByte7 plan.byte7 buf).take n)

/-- The split loop: one SeqNum a fragment, spent also when encoding fails. -/
def fragmentLoop (plan : FragPlan) (k : Nat) : List Nat → Emit PUnit
  | [] => pure ⟨⟩
  | i :: rest => do
      let (hashKey, seqNum) ← nextSeq env plan.flow
      let buf := env.poolBuffer (headerSizeV3 + fw.fragDataSize) i
      sendEncoded plan.enqueue (encodePlanned env fw plan buf i k hashKey seqNum)
      fragmentLoop plan k rest

/-- Transaction fragments: TxID and SubtreeID, version 0 for V2. -/
def fragmentPlan (f : Frame) (ip : IPv6) (groupIdx : UInt32) : FragPlan :=
  ⟨f.payload, f.txID, f.subtreeID, ⟨ip, groupIdx, f.subtreeID⟩, 0, none,
    fw.addrFor groupIdx, groupIdx, ""⟩

/-- Block fragments: ContentID in the TxID slot and MsgType in byte 7. -/
def fragmentBlockPlan (raw : Bytes) (bf : BlockFrame) (ip : IPv6) (ctrlIdx : UInt32) :
    FragPlan :=
  ⟨bf.payload, bf.contentID, zeroHash, ⟨ip, ctrlIdx, zeroHash⟩, frameVerV4,
    some (byteAt raw 7), fw.controlAddr groupBlockBroadcast, 0, "block_control"⟩

/-- Subtree fragments: SubtreeID in the TxID slot, zeros in its own. -/
def fragmentSubtreeDataPlan (raw : Bytes) (sf : SubtreeDataFrame) (ip : IPv6)
    (ctrlIdx : UInt32) : FragPlan :=
  ⟨sf.payload, sf.subtreeID, zeroHash, ⟨ip, ctrlIdx, sf.subtreeID⟩, frameVerV5,
    some (byteAt raw 7), fw.controlAddr groupSubtreeDataAnnounce, 0, "subtree_data"⟩

/-- BEEF fragments: ContentID and TopicID, DeliverCount in byte 7, and a flow
without an ingredient. -/
def fragmentBEEFPlan (bf : BEEFFrame) (ip : IPv6) (groupIdx : UInt32) : FragPlan :=
  ⟨bf.payload, bf.contentID, bf.topicID, ⟨ip, groupIdx, zeroHash⟩, frameVerV9,
    some bf.deliverCount, fw.addrFor groupIdx, groupIdx, ""⟩

/-- Run a program of one worker alone on the counters. -/
def run {A : Type} (prog : Emit A) (chains : Chains) :
    Ran (Fin chainStripes) ChainKey EnqueueReq A :=
  prog.exec ChainKey.stripe chains

/-- The last SeqNum a flow has been given. -/
def lastSeq (chains : Chains) (key : ChainKey) : UInt64 :=
  chains.value ChainKey.stripe key

/-- The counters after `n` more SeqNums on a flow. -/
def advance (chains : Chains) (key : ChainKey) (n : Nat) : Chains :=
  Registry.advance ChainKey.stripe chains key n

@[simp] theorem run_pure {A : Type} (result : A) (chains : Chains) :
    run (pure result) chains = ⟨result, chains, []⟩ := rfl

@[simp] theorem run_send (req : EnqueueReq) (chains : Chains) :
    run (send req) chains = ⟨⟨⟩, chains, [req]⟩ := rfl

@[simp] theorem run_bind {A B : Type} (prog : Emit A) (next : A → Emit B) (chains : Chains) :
    run (prog >>= next) chains =
      let first := run prog chains
      let second := run (next first.result) first.registry
      ⟨second.result, second.registry, first.outputs ++ second.outputs⟩ :=
  Prog.exec_bind ChainKey.stripe prog next chains

@[simp] theorem run_reserveSeq (key : ChainKey) (n : Nat) (chains : Chains) :
    run (reserveSeq env key n) chains =
      ⟨(env.hashKey key, lastSeq chains key + 1),
        (Registry.reserve ChainKey.stripe chains key n).2, []⟩ :=
  Prog.exec_reserve ChainKey.stripe key n _ chains

@[simp] theorem run_nextSeq (key : ChainKey) (chains : Chains) :
    run (nextSeq env key) chains =
      ⟨(env.hashKey key, lastSeq chains key + 1), advance chains key 1, []⟩ :=
  run_reserveSeq env key 1 chains

theorem lastSeq_advance_one (chains : Chains) (key : ChainKey) :
    lastSeq (advance chains key 1) key = lastSeq chains key + 1 := by
  have hvalue := Registry.reserve_value ChainKey.stripe chains key key 1
  rwa [if_pos rfl] at hvalue

theorem lastSeq_advance (chains : Chains) (key other : ChainKey) (n : Nat) :
    lastSeq (advance chains key n) other =
      lastSeq chains other + if other = key then UInt64.ofNat n else 0 := by
  cases n with
  | zero =>
      have hzero : (if other = key then UInt64.ofNat 0 else 0) = 0 := by split <;> rfl
      rw [hzero, UInt64.add_zero]
      rfl
  | succ n =>
      rw [advance, Registry.advance_succ]
      have hvalue := Registry.reserve_value ChainKey.stripe chains key other (n + 1)
      by_cases hkey : other = key
      · subst hkey
        rw [if_pos rfl] at hvalue ⊢
        exact hvalue
      · rw [if_neg hkey] at hvalue ⊢
        rw [UInt64.add_zero]
        exact hvalue

/-- A frame as stamping leaves it, with the flow's count before. -/
def stamped (raw : Bytes) (key : ChainKey) (last : UInt64) : Bytes :=
  if uint64At raw 48 = 0 then
    putUint64 (putUint64 raw 40 (env.hashKey key)) 48 (last + 1)
  else if uint64At raw 40 = 0 ∨ fw.stampSource then
    putUint64 raw 40 (env.hashKey key)
  else raw

/-- Stamping takes a number exactly when the frame has none. -/
theorem run_stampInPlace (raw : Bytes) (key : ChainKey) (chains : Chains) :
    run (stampInPlace env fw raw key) chains =
      ⟨stamped env fw raw key (lastSeq chains key),
        if uint64At raw 48 = 0 then advance chains key 1 else chains, []⟩ := by
  by_cases hseq : uint64At raw 48 = 0
  · simp only [stampInPlace, stamped, hseq, ↓reduceIte, run_bind, run_nextSeq, run_pure,
      List.append_nil]
  · by_cases hkey : uint64At raw 40 = 0 ∨ fw.stampSource = true <;>
      simp only [stampInPlace, stamped, hseq, hkey, ↓reduceIte, run_pure]

/-- Stamping writes bytes 40 to 55 only. -/
theorem stamped_length (raw : Bytes) (key : ChainKey) (last : UInt64)
    (hsize : headerSize ≤ raw.length) :
    (stamped env fw raw key last).length = raw.length := by
  have hfit : 56 ≤ raw.length := Nat.le_trans (by decide) hsize
  have hhash : (putUint64 raw 40 (env.hashKey key)).length = raw.length :=
    length_putUint64 raw _ (by omega)
  rw [stamped]
  split
  · rw [length_putUint64 _ _ (by omega), hhash]
  · split
    · exact hhash
    · rfl

theorem stamped_field (raw : Bytes) (key : ChainKey) (last : UInt64)
    (hsize : headerSize ≤ raw.length) {off width : Nat}
    (hout : off + width ≤ 40 ∨ 56 ≤ off) :
    field (stamped env fw raw key last) off width = field raw off width := by
  have hfit : 56 ≤ raw.length := Nat.le_trans (by decide) hsize
  have hhash : (putUint64 raw 40 (env.hashKey key)).length = raw.length :=
    length_putUint64 raw _ (by omega)
  have hkey : field (putUint64 raw 40 (env.hashKey key)) off width = field raw off width :=
    field_putUint64_of_disjoint raw _ (by omega) (by omega)
  rw [stamped]
  split
  · rw [field_putUint64_of_disjoint _ _ (by omega) (by omega), hkey]
  · split
    · exact hkey
    · rfl

theorem byteAt_stamped {raw : Bytes} (hsize : headerSize ≤ raw.length) (key : ChainKey)
    (last : UInt64) {pos : Nat} (hpos : pos < 40) :
    byteAt (stamped env fw raw key last) pos = byteAt raw pos := by
  have hfit : 56 ≤ raw.length := Nat.le_trans (by decide) hsize
  have hkey : byteAt (putUint64 raw 40 (env.hashKey key)) pos = byteAt raw pos :=
    byteAt_putUint64_of_disjoint raw _ (by omega) (Or.inl hpos)
  rw [stamped]
  split
  · rw [byteAt_putUint64_of_disjoint _ _ _ (Or.inl (by omega)), hkey]
    rwa [length_putUint64 _ _ (by omega)]
  · split
    · exact hkey
    · rfl

/-- Fragment `i` of `k` as it leaves. -/
def planDatagram (plan : FragPlan) (k i : Nat) (hashKey seqNum : UInt64) : Bytes :=
  withByte7 plan.byte7 (env.fragmentBytes (plan.args fw i k hashKey seqNum))

variable {env fw}

/-- Every index below the fragment count has data and fits its field. -/
theorem FragPlan.placed (plan : FragPlan) {i k : Nat} (hsize : 0 < fw.fragDataSize)
    (hk : k = fw.fragTotal plan.payload) (hmax : k ≤ 65535) (hi : i < k)
    (hashKey seqNum : UInt64) : (plan.args fw i k hashKey seqNum).Placed where
  index := by
    have hik : (UInt16.ofNat i).toNat < (UInt16.ofNat k).toNat := by
      rw [UInt16.toNat_ofNat_of_lt' (show i < 2 ^ 16 by omega),
        UInt16.toNat_ofNat_of_lt' (show k < 2 ^ 16 by omega)]
      exact hi
    exact UInt16.lt_iff_toNat_lt.mpr hik
  data := by
    subst hk
    exact chunk_ne_nil hsize hi

theorem withByte7_take {byte7 : Option UInt8} {datagram rest : Bytes}
    (hlength : 7 < datagram.length) :
    (withByte7 byte7 (datagram ++ rest)).take datagram.length =
      withByte7 byte7 datagram := by
  cases byte7 with
  | none => exact List.take_left' rfl
  | some byte =>
      simp only [withByte7, List.set_append_left _ _ hlength]
      exact List.take_left' (by simp)

/-- A buffer of the pool's size takes every fragment, whatever it held. -/
theorem encodePlanned_eq (hlaws : FragmentLaws env) (plan : FragPlan) {i k : Nat}
    {hashKey seqNum : UInt64} (hplaced : (plan.args fw i k hashKey seqNum).Placed)
    {buf : Bytes}
    (hbuf : headerSizeV3 + (chunk plan.payload fw.fragDataSize i).length ≤ buf.length) :
    encodePlanned env fw plan buf i k hashKey seqNum =
      some (planDatagram env fw plan k i hashKey seqNum) := by
  have hencode := hlaws.encode hplaced hbuf
  have hlength := hlaws.length (plan.args fw i k hashKey seqNum)
  rw [encodePlanned, hencode]
  simp only
  rw [planDatagram, ← hlength]
  congr 1
  apply withByte7_take
  rw [hlength]
  simp only [headerSizeV3]
  omega

theorem length_chunk_le (plan : FragPlan) (i : Nat) :
    (chunk plan.payload fw.fragDataSize i).length ≤ fw.fragDataSize := by
  rw [length_chunk]
  exact Nat.min_le_left _ _

/-- The split loop in closed form: the datagrams of its indices in order, with
consecutive SeqNums after the flow's last one. -/
theorem run_fragmentLoop (hlaws : FragmentLaws env) (plan : FragPlan) {k : Nat}
    (hsize : 0 < fw.fragDataSize) (hk : k = fw.fragTotal plan.payload) (hmax : k ≤ 65535)
    (start n : Nat) (hend : start + n ≤ k) (chains : Chains) :
    run (fragmentLoop env fw plan k (List.range' start n)) chains =
      ⟨⟨⟩, advance chains plan.flow n,
        (List.range n).map fun j => plan.enqueue
          (planDatagram env fw plan k (start + j) (env.hashKey plan.flow)
            (lastSeq chains plan.flow + 1 + UInt64.ofNat j))⟩ := by
  induction n generalizing start chains with
  | zero => rfl
  | succ n ih =>
      have hplaced := plan.placed hsize hk hmax (show start < k by omega)
        (env.hashKey plan.flow) (lastSeq chains plan.flow + 1)
      have hbuf : headerSizeV3 + (chunk plan.payload fw.fragDataSize start).length ≤
          (env.poolBuffer (headerSizeV3 + fw.fragDataSize) start).length := by
        rw [env.length_poolBuffer]
        exact Nat.add_le_add_left (length_chunk_le plan start) _
      have hencode := encodePlanned_eq hlaws plan hplaced hbuf
      rw [List.range'_succ, fragmentLoop]
      simp only [run_bind, run_nextSeq, hencode, sendEncoded, run_send, List.nil_append,
        ih (start + 1) (by omega), lastSeq_advance_one]
      rw [List.range_succ_eq_map, List.map_cons, List.map_map]
      refine congrArg₂ (Ran.mk PUnit.unit) rfl ?_
      refine congrArg₂ List.cons (by simp) (List.map_congr_left fun j _ => ?_)
      have hindex : start + 1 + j = start + Nat.succ j := by omega
      have hseq : lastSeq chains plan.flow + 1 + 1 + UInt64.ofNat j =
          lastSeq chains plan.flow + 1 + UInt64.ofNat (Nat.succ j) := by
        rw [Nat.succ_eq_add_one, UInt64.ofNat_add, UInt64.add_assoc _ 1,
          UInt64.add_comm (UInt64.ofNat j)]
        rfl
      simp only [Function.comp_apply, hindex, hseq]

end Programs

end ShardProxy
