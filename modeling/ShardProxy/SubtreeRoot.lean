/-
Verification of a BRC-132 subtree payload against the root in its frame.  The
code hashes each level into one of two alternating buffers, splitting a wide
level among workers; here that is shown to be the level-by-level pair fold of
the payload's node hashes.
-/
import ShardProxy.Lib.Chunks
import ShardProxy.Lib.PairFold
import ShardProxy.Wire

namespace ShardProxy

open ByteField Chunks PairFold

def subtreeRootParallelMin : Nat := 2 ^ 14
def subtreeRootMaxWorkers : Nat := 4

/-- Why a payload was refused. -/
inductive SubtreeError where
  | malformed
  | rootMismatch
deriving DecidableEq

/-- Hash `i` of the records in `src`: the first 32 bytes of its record. -/
def hashAt (src : Bytes) (stride i : Nat) : Hash32 :=
  FixedBytes.copy 32 (field src (i * stride) 32)

/-- The first `n` hashes of the records in `src`. -/
def nodeHashes (src : Bytes) (stride n : Nat) : List Hash32 :=
  (List.range n).map (hashAt src stride)

section Root

variable (env : Env)

/-- Double SHA-256 of two hashes side by side. -/
def sha256d (left right : Hash32) : Hash32 :=
  env.sha256 (env.sha256 (left.bytes ++ right.bytes)).bytes

/-- Parent `p` of the `n` hashes in `src`. -/
def parentAt (src : Bytes) (stride n p : Nat) : Hash32 :=
  let left := hashAt src stride (2 * p)
  if left = zeroHash then zeroHash
  else if 2 * p + 1 < n then
    let right := hashAt src stride (2 * p + 1)
    sha256d env left (if right ≠ zeroHash then right else left)
  else sha256d env left left

/-- Write parents `lo` to `hi - 1` into their slots. -/
def hashRange (dst src : Bytes) (stride n lo hi : Nat) : Bytes :=
  (List.range' lo (hi - lo)).foldl
    (fun dst p => overwrite dst (p * 32) (parentAt env src stride n p).bytes) dst

/-- Write the parents of one level, in one range or one a worker. -/
def hashLevel (dst src : Bytes) (stride n : Nat) : Bytes :=
  let parents := (n + 1) / 2
  let workers := if subtreeRootParallelMin ≤ parents then
    min env.maxProcs subtreeRootMaxWorkers else 1
  if workers ≤ 1 then hashRange env dst src stride n 0 parents
  else
    let size := chunkCount parents workers
    (List.range (chunkCount parents size)).foldl
      (fun dst i => hashRange env dst src stride n (i * size) (min (i * size + size) parents))
      dst

/-- Hash levels until one hash is left, the buffers changing places. -/
def levelLoop : Nat → Bytes → Bytes → Nat → Bytes
  | 0, src, _, _ => src
  | rounds + 1, src, dst, n =>
      if 1 < n then levelLoop rounds (hashLevel env dst src 32 n) src ((n + 1) / 2)
      else src

/-- The merkle root of the `n` node hashes in `nodes`. -/
def subtreeRoot (nodes : Bytes) (stride n : Nat) : Hash32 :=
  if n = 1 then FixedBytes.copy 32 (field nodes 0 32)
  else
    let width := (n + 1) / 2
    let src := hashLevel env (List.replicate (width * 32) 0) nodes stride n
    let dst := List.replicate ((width + 1) / 2 * 32) 0
    FixedBytes.copy 32 (field (levelLoop env width src dst width) 0 32)

/-- The record size of a message type. -/
def nodeStride (msgType : UInt8) : Nat :=
  if msgType = subtreeMsgFullNodes then subtreeNodeFullSize else subtreeNodeHashSize

/-- How many nodes a payload says it carries. -/
def nodeCount (payload : Bytes) : Nat :=
  (uint64At payload 16).toNat

def verifySubtreePayload (root : Hash32) (msgType : UInt8) (payload : Bytes) :
    Except SubtreeError Unit :=
  let stride := nodeStride msgType
  if payload.length < env.subtreeDataPayloadHeaderSize then .error .malformed
  else
    let count := nodeCount payload
    let avail := (payload.length - env.subtreeDataPayloadHeaderSize) / stride
    if count = 0 ∨ avail < count then .error .malformed
    else
      let nodes := payload.drop env.subtreeDataPayloadHeaderSize
      if subtreeRoot env nodes stride count ≠ root then .error .rootMismatch
      else .ok ()

/-- The node hashes a payload carries. -/
def payloadNodes (msgType : UInt8) (payload : Bytes) : List Hash32 :=
  nodeHashes (payload.drop env.subtreeDataPayloadHeaderSize) (nodeStride msgType)
    (nodeCount payload)

end Root

theorem hashAt_overwrite (dst : Bytes) (hash : Hash32) {p : Nat} (q : Nat)
    (hfit : p * 32 + 32 ≤ dst.length) :
    hashAt (overwrite dst (p * 32) hash.bytes) 32 q =
      if q = p then hash else hashAt dst 32 q := by
  have hsize := hash.size
  by_cases hq : q = p
  · subst hq
    have hself := field_overwrite_self dst (q * 32) hash.bytes (by omega)
    rw [hsize] at hself
    rw [hashAt, hself, if_pos rfl, FixedBytes.copy_bytes]
  · have hdisjoint : q * 32 + 32 ≤ p * 32 ∨ p * 32 + hash.bytes.length ≤ q * 32 := by
      omega
    rw [hashAt, field_overwrite_of_disjoint dst (by omega) hdisjoint, if_neg hq, hashAt]

section Refinement

variable (env : Env) (src : Bytes) (stride n : Nat)

/-- Writing parents into slots that exist: the listed slots hold their parents,
the others what they held. -/
theorem writeParents_spec (slots : List Nat) (dst : Bytes)
    (hfit : ∀ p ∈ slots, p * 32 + 32 ≤ dst.length) :
    let written := slots.foldl
      (fun dst p => overwrite dst (p * 32) (parentAt env src stride n p).bytes) dst
    written.length = dst.length ∧
      ∀ q, hashAt written 32 q =
        if q ∈ slots then parentAt env src stride n q else hashAt dst 32 q := by
  induction slots generalizing dst with
  | nil => simp
  | cons p rest ih =>
      have hp := hfit p List.mem_cons_self
      have hsize := (parentAt env src stride n p).size
      have hlength := length_overwrite dst (p * 32) (parentAt env src stride n p).bytes
        (by omega)
      have hrest := ih (overwrite dst (p * 32) (parentAt env src stride n p).bytes)
        (fun q hq => by rw [hlength]; exact hfit q (List.mem_cons_of_mem p hq))
      simp only [List.foldl_cons]
      refine ⟨hrest.1.trans hlength, fun q => ?_⟩
      rw [hrest.2 q, hashAt_overwrite dst _ q hp]
      by_cases hq : q ∈ rest
      · simp [hq]
      · by_cases hqp : q = p
        · subst hqp
          simp [hq]
        · simp [hq, hqp]

theorem hashRange_spec (dst : Bytes) (lo : Nat) {hi : Nat} (hfit : hi * 32 ≤ dst.length) :
    (hashRange env dst src stride n lo hi).length = dst.length ∧
      ∀ q, hashAt (hashRange env dst src stride n lo hi) 32 q =
        if lo ≤ q ∧ q < hi then parentAt env src stride n q else hashAt dst 32 q := by
  have hslots : ∀ p ∈ List.range' lo (hi - lo), p * 32 + 32 ≤ dst.length := by
    intro p hp
    rw [List.mem_range'_1] at hp
    omega
  obtain ⟨hlength, hwritten⟩ := writeParents_spec env src stride n _ dst hslots
  refine ⟨hlength, fun q => ?_⟩
  rw [hashRange, hwritten q]
  have hmem : q ∈ List.range' lo (hi - lo) ↔ lo ≤ q ∧ q < hi := by
    rw [List.mem_range'_1]
    omega
  simp only [hmem]

/-- The workers' ranges one after the other, up to the `count`-th. -/
theorem hashRanges_spec (dst : Bytes) {parents : Nat} (hfit : parents * 32 ≤ dst.length)
    (size count : Nat) :
    let written := (List.range count).foldl
      (fun dst i => hashRange env dst src stride n (i * size) (min (i * size + size) parents))
      dst
    written.length = dst.length ∧
      ∀ q, hashAt written 32 q =
        if q < min (count * size) parents then parentAt env src stride n q
        else hashAt dst 32 q := by
  induction count with
  | zero => simp
  | succ count ih =>
      obtain ⟨hlength, hwritten⟩ := ih
      rw [List.range_succ, List.foldl_append]
      simp only [List.foldl_cons, List.foldl_nil]
      have hend : min (count * size + size) parents * 32 ≤
          ((List.range count).foldl (fun dst i => hashRange env dst src stride n (i * size)
            (min (i * size + size) parents)) dst).length := by
        rw [hlength]
        omega
      obtain ⟨hlength', hwritten'⟩ :=
        hashRange_spec env src stride n _ (count * size) hend
      refine ⟨hlength'.trans hlength, fun q => ?_⟩
      rw [hwritten' q, hwritten q, Nat.add_mul, Nat.one_mul]
      by_cases hq : q < count * size
      · have hout : ¬ (count * size ≤ q ∧ q < min (count * size + size) parents) := by omega
        rw [if_neg hout]
        by_cases hparents : q < parents
        · rw [if_pos (by omega), if_pos (by omega)]
        · rw [if_neg (by omega), if_neg (by omega)]
      · by_cases hin : q < min (count * size + size) parents
        · rw [if_pos ⟨by omega, hin⟩, if_pos hin]
        · rw [if_neg (by omega), if_neg (by omega), if_neg hin]

/-- However a level is split among workers, every slot holds its parent. -/
theorem hashLevel_spec (dst : Bytes) (hfit : (n + 1) / 2 * 32 ≤ dst.length) :
    (hashLevel env dst src stride n).length = dst.length ∧
      ∀ q < (n + 1) / 2,
        hashAt (hashLevel env dst src stride n) 32 q = parentAt env src stride n q := by
  rw [hashLevel]
  generalize hworkers : (if subtreeRootParallelMin ≤ (n + 1) / 2 then
    min env.maxProcs subtreeRootMaxWorkers else 1) = workers
  split
  · obtain ⟨hlength, hwritten⟩ := hashRange_spec env src stride n dst 0 hfit
    refine ⟨hlength, fun q hq => ?_⟩
    rw [hwritten q, if_pos ⟨Nat.zero_le q, hq⟩]
  · rename_i hmany
    obtain ⟨hlength, hwritten⟩ := hashRanges_spec env src stride n dst hfit
      (chunkCount ((n + 1) / 2) workers)
      (chunkCount ((n + 1) / 2) (chunkCount ((n + 1) / 2) workers))
    refine ⟨hlength, fun q hq => ?_⟩
    -- The ranges cover the level: their sizes add up past the last parent.
    have hsize : 0 < chunkCount ((n + 1) / 2) workers :=
      (lt_chunkCount_iff (by omega)).mpr (by omega)
    have hcover : (n + 1) / 2 ≤ chunkCount ((n + 1) / 2) (chunkCount ((n + 1) / 2) workers) *
        chunkCount ((n + 1) / 2) workers := (chunkCount_le_iff hsize).mp (Nat.le_refl _)
    rw [hwritten q, if_pos (by omega)]

theorem parentAt_eq_join (p : Nat) :
    parentAt env src stride n p =
      join zeroHash (sha256d env) (hashAt src stride (2 * p))
        (if 2 * p + 1 < n then some (hashAt src stride (2 * p + 1)) else none) := by
  by_cases hleft : hashAt src stride (2 * p) = zeroHash
  · simp [parentAt, join, hleft]
  · by_cases hright : 2 * p + 1 < n
    · by_cases hzero : hashAt src stride (2 * p + 1) = zeroHash <;>
        simp [parentAt, join, hleft, hright, hzero]
    · simp [parentAt, join, hleft, hright]

/-- The parents of a level are the level above it. -/
theorem map_parentAt_eq_level :
    (List.range ((n + 1) / 2)).map (parentAt env src stride n) =
      level zeroHash (sha256d env) (nodeHashes src stride n) := by
  rw [level_eq_map_range, nodeHashes, List.length_map, List.length_range]
  apply List.map_congr_left
  intro p hp
  rw [List.mem_range] at hp
  have heven : 2 * p < n := by omega
  rw [parentAt_eq_join]
  congr 1
  · simp [heven]
  · by_cases hodd : 2 * p + 1 < n <;> simp [hodd]

theorem nodeHashes_hashLevel (dst : Bytes) (hfit : (n + 1) / 2 * 32 ≤ dst.length) :
    nodeHashes (hashLevel env dst src stride n) 32 ((n + 1) / 2) =
      level zeroHash (sha256d env) (nodeHashes src stride n) := by
  rw [← map_parentAt_eq_level]
  apply List.map_congr_left
  intro q hq
  exact (hashLevel_spec env src stride n dst hfit).2 q (List.mem_range.mp hq)

theorem nodeHashes_one (stride : Nat) :
    nodeHashes src stride 1 = [FixedBytes.copy 32 (field src 0 32)] := by
  simp [nodeHashes, hashAt]

/-- The loop over levels ends at the root of the hashes it starts from. -/
theorem levelLoop_eq_root (rounds : Nat) (src dst : Bytes) {n : Nat} (hpos : 1 ≤ n)
    (hrounds : n ≤ rounds) (hsrc : n * 32 ≤ src.length)
    (hdst : (n + 1) / 2 * 32 ≤ dst.length) :
    FixedBytes.copy 32 (field (levelLoop env rounds src dst n) 0 32) =
      root zeroHash (sha256d env) (nodeHashes src 32 n) := by
  induction rounds generalizing src dst n with
  | zero => omega
  | succ rounds ih =>
      rw [levelLoop]
      split
      · rename_i hmany
        have hlength := (hashLevel_spec env src 32 n dst hdst).1
        rw [ih (hashLevel env dst src 32 n) src (by omega) (by omega) (by omega) (by omega),
          nodeHashes_hashLevel env src 32 n dst hdst, ← root_level]
        simp only [nodeHashes, List.length_map, List.length_range]
        omega
      · obtain rfl : n = 1 := by omega
        rw [nodeHashes_one, root_singleton]

/-- The code's root is the pair fold of the node hashes. -/
theorem subtreeRoot_eq_root (hpos : 1 ≤ n) :
    subtreeRoot env src stride n =
      root zeroHash (sha256d env) (nodeHashes src stride n) := by
  rw [subtreeRoot]
  split
  · rename_i hone
    subst hone
    rw [nodeHashes_one, root_singleton]
  · rename_i hmany
    have hfit : (n + 1) / 2 * 32 ≤ (List.replicate ((n + 1) / 2 * 32) (0 : UInt8)).length := by
      simp
    have hlength := (hashLevel_spec env src stride n _ hfit).1
    rw [List.length_replicate] at hlength
    rw [levelLoop_eq_root env _ _ _ (by omega) (Nat.le_refl _) (by omega) (by simp),
      nodeHashes_hashLevel env src stride n _ hfit, ← root_level]
    simp only [nodeHashes, List.length_map, List.length_range]
    omega

end Refinement

section Verify

variable (env : Env)

/-- A payload is accepted for a root exactly when it holds the nodes it counts,
at least one, and they fold to the root. -/
theorem verifySubtreePayload_ok_iff (root : Hash32) (msgType : UInt8) (payload : Bytes) :
    verifySubtreePayload env root msgType payload = .ok () ↔
      env.subtreeDataPayloadHeaderSize ≤ payload.length ∧ nodeCount payload ≠ 0 ∧
        nodeCount payload ≤
          (payload.length - env.subtreeDataPayloadHeaderSize) / nodeStride msgType ∧
        PairFold.root zeroHash (sha256d env) (payloadNodes env msgType payload) = root := by
  rw [verifySubtreePayload]
  split
  · simp only [reduceCtorEq, false_iff]
    omega
  · simp only
    split
    · simp only [reduceCtorEq, false_iff]
      omega
    · rename_i hcount
      rw [subtreeRoot_eq_root env _ _ _ (by omega)]
      split
      · rename_i hroot
        simp only [reduceCtorEq, false_iff]
        rintro ⟨_, _, _, hsame⟩
        exact hroot hsame
      · rename_i hroot
        simp only [ne_eq, not_not] at hroot
        exact ⟨fun _ => ⟨by omega, by omega, by omega, hroot⟩, fun _ => rfl⟩

theorem length_payloadNodes (msgType : UInt8) (payload : Bytes) :
    (payloadNodes env msgType payload).length = nodeCount payload := by
  simp [payloadNodes, nodeHashes]

end Verify

end ShardProxy
