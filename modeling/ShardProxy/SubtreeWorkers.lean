/-
The subtree root as the workers compute it.  A level is split among workers, which
read the level below and write one parent a step into the other buffer, in any
interleaving; when all are through the buffers change places and the next level
begins.  Every slice is checked against its buffer.  However the levels are split
and the steps interleave, no slice is out of bounds, each parent is written once and
the run ends at the pair fold of the node hashes.
-/
import Mathlib.Logic.Relation
import ShardProxy.Lib.ForkJoin
import ShardProxy.Reference
import ShardProxy.SubtreeRoot

namespace ShardProxy

open ByteField PairFold ForkJoin

/-- Hash `i` of the records in `src`; slicing past the end panics. -/
def hashAt? (src : Bytes) (stride i : Nat) : Option Hash32 :=
  if i * stride + 32 ≤ src.length then some (hashAt src stride i) else none

section Machine

variable (env : Env)

/-- Parent `p` of the `n` hashes in `src`, every slice checked. -/
def parentAt? (src : Bytes) (stride n p : Nat) : Option Hash32 := do
  let left ← hashAt? src stride (2 * p)
  if left = zeroHash then some zeroHash
  else if 2 * p + 1 < n then
    let right ← hashAt? src stride (2 * p + 1)
    some (sha256d env left (if right ≠ zeroHash then right else left))
  else some (sha256d env left left)

/-- One turn of `hashRange`: compute parent `p` and write it into its slot. -/
def writeParent? (dst src : Bytes) (stride n p : Nat) : Option Bytes :=
  if p * 32 + 32 ≤ dst.length then
    (parentAt? env src stride n p).map fun parent => overwrite dst (p * 32) parent.bytes
  else none

/-- A level being hashed: the buffers, the workers, and which parents have been written so
far, in the order they were.  On the first level the source is the payload, and the second
buffer is yet to be made. -/
structure RootLevel where
  dst : Bytes
  src : Bytes
  stride : Nat
  n : Nat
  first : Bool
  workers : List Range
  written : List Nat

inductive RootState where
  | level (l : RootLevel)
  | done (root : Hash32)
  | panic

/-- The ranges of a level of some width, given `GOMAXPROCS`. -/
def levelRanges (procs parents : Nat) : List Range :=
  split parents (if subtreeRootParallelMin ≤ parents then min procs subtreeRootMaxWorkers else 1)

/-- The root is the first hash of the buffer. -/
def finishRoot (src : Bytes) : RootState :=
  match hashAt? src 32 0 with
  | some root => .done root
  | none => .panic

/-- After a level the buffers change places; the second one is made after the first level. -/
def RootLevel.next (l : RootLevel) (procs : Nat) : RootState :=
  let width := (l.n + 1) / 2
  let dst := if l.first then List.replicate ((width + 1) / 2 * 32) 0 else l.src
  if 1 < width then
    .level ⟨dst, l.dst, 32, width, false, levelRanges procs ((width + 1) / 2), []⟩
  else finishRoot l.dst

/-- `subtreeRoot` begins. -/
def startRoot (procs : Nat) (nodes : Bytes) (stride n : Nat) : RootState :=
  let width := (n + 1) / 2
  if n = 1 then finishRoot nodes
  else .level ⟨List.replicate (width * 32) 0, nodes, stride, n, true, levelRanges procs width, []⟩

/-- A worker writes its next parent, or all are through and the next level begins.  The
number of processors may change from level to level. -/
inductive RootStep : RootState → RootState → Prop where
  | write {l : RootLevel} {slot : Nat} {workers : List Range} {dst : Bytes}
      (htakes : Takes l.workers slot workers)
      (hwrite : writeParent? env l.dst l.src l.stride l.n slot = some dst) :
      RootStep (.level l)
        (.level { l with dst := dst, workers := workers, written := l.written ++ [slot] })
  | panic {l : RootLevel} {slot : Nat} {workers : List Range}
      (htakes : Takes l.workers slot workers)
      (hpanic : writeParent? env l.dst l.src l.stride l.n slot = none) :
      RootStep (.level l) .panic
  | join {l : RootLevel} (hdone : pending l.workers = []) (procs : Nat) :
      RootStep (.level l) (l.next procs)

end Machine

section Steps

variable {env : Env} {src dst : Bytes} {stride n p : Nat}

theorem hashAt?_eq (hfit : p * stride + 32 ≤ src.length) :
    hashAt? src stride p = some (hashAt src stride p) :=
  if_pos hfit

/-- With the hashes of a parent in the source and its slot in the buffer, the turn writes
the parent. -/
theorem writeParent?_eq (hstride : 32 ≤ stride) (hsrc : n * stride ≤ src.length)
    (hdst : (n + 1) / 2 * 32 ≤ dst.length) (hp : p < (n + 1) / 2) :
    writeParent? env dst src stride n p =
      some (overwrite dst (p * 32) (parentAt env src stride n p).bytes) := by
  have hrecord : ∀ i < n, i * stride + 32 ≤ src.length := by
    intro i hi
    have hnext : (i + 1) * stride ≤ n * stride := Nat.mul_le_mul_right stride hi
    rw [Nat.add_mul, Nat.one_mul] at hnext
    omega
  have hparent : parentAt? env src stride n p = some (parentAt env src stride n p) := by
    rw [parentAt?, hashAt?_eq (hrecord (2 * p) (by omega)), parentAt]
    by_cases hleft : hashAt src stride (2 * p) = zeroHash
    · simp [hleft]
    · by_cases hright : 2 * p + 1 < n
      · simp [hleft, hright, hashAt?_eq (hrecord (2 * p + 1) hright)]
      · simp [hleft, hright]
  rw [writeParent?, if_pos (by omega), hparent]
  rfl

theorem pending_levelRanges (procs parents : Nat) :
    pending (levelRanges procs parents) = List.range parents :=
  pending_split _ _

end Steps

/-- What holds on a level of a run towards `target`. -/
structure RootLevel.Sound (env : Env) (target : Hash32) (l : RootLevel) : Prop where
  two : 2 ≤ l.n
  stride : 32 ≤ l.stride
  reused : l.first = false → l.stride = 32
  src : l.n * l.stride ≤ l.src.length
  dst : (l.n + 1) / 2 * 32 ≤ l.dst.length
  root : root zeroHash (sha256d env) (nodeHashes l.src l.stride l.n) = target
  once : (l.written ++ pending l.workers).Perm (List.range ((l.n + 1) / 2))
  right : ∀ p ∈ l.written, hashAt l.dst 32 p = parentAt env l.src l.stride l.n p

/-- The states of a run towards `target`. -/
def RootState.Sound (env : Env) (target : Hash32) : RootState → Prop
  | .level l => l.Sound env target
  | .done root => root = target
  | .panic => False

section Runs

variable {env : Env} {target : Hash32} {l : RootLevel} {s s' : RootState} {nodes : Bytes}
variable {stride n procs : Nat}

/-- What a worker takes is a parent of the level. -/
theorem RootLevel.Sound.slot_lt {slot : Nat} {workers : List Range} (hsound : l.Sound env target)
    (htakes : Takes l.workers slot workers) : slot < (l.n + 1) / 2 := by
  have hpending : slot ∈ pending l.workers := htakes.perm.mem_iff.mpr List.mem_cons_self
  have hrange := hsound.once.mem_iff.mp (List.mem_append_right l.written hpending)
  exact List.mem_range.mp hrange

/-- The turn that writes a parent keeps the level sound. -/
theorem RootLevel.Sound.write {slot : Nat} {workers : List Range} {dst : Bytes}
    (hsound : l.Sound env target) (htakes : Takes l.workers slot workers)
    (hwrite : writeParent? env l.dst l.src l.stride l.n slot = some dst) :
    RootLevel.Sound env target
      { l with dst := dst, workers := workers, written := l.written ++ [slot] } := by
  have hslot := hsound.slot_lt htakes
  have hfit : slot * 32 + 32 ≤ l.dst.length := by
    have := hsound.dst
    omega
  rw [writeParent?_eq hsound.stride hsound.src hsound.dst hslot] at hwrite
  obtain rfl := Option.some.inj hwrite
  have hlength := length_overwrite l.dst (slot * 32) (parentAt env l.src l.stride l.n slot).bytes
    (by rwa [(parentAt env l.src l.stride l.n slot).size])
  refine ⟨hsound.two, hsound.stride, hsound.reused, hsound.src, ?_, hsound.root, ?_, ?_⟩
  · rw [hlength]
    exact hsound.dst
  · rw [List.append_assoc]
    exact (htakes.perm.symm.append_left l.written).trans hsound.once
  · intro p hp
    rw [hashAt_overwrite l.dst _ p hfit]
    rcases List.mem_append.mp hp with hbefore | hnow
    · split_ifs with hagain
      · rw [hagain]
      · exact hsound.right p hbefore
    · rw [List.mem_singleton.mp hnow, if_pos rfl]

theorem finishRoot_eq {src : Bytes} (hfit : 32 ≤ src.length) :
    finishRoot src = .done (hashAt src 32 0) := by
  rw [finishRoot, hashAt?_eq (by omega)]

/-- A level whose workers are through holds the level above in its buffer. -/
theorem RootLevel.Sound.joined (hsound : l.Sound env target) (hdone : pending l.workers = []) :
    nodeHashes l.dst 32 ((l.n + 1) / 2) =
      PairFold.level zeroHash (sha256d env) (nodeHashes l.src l.stride l.n) := by
  rw [← map_parentAt_eq_level]
  apply List.map_congr_left
  intro p hp
  have hwritten := hsound.once.mem_iff.mpr hp
  rw [hdone, List.append_nil] at hwritten
  exact hsound.right p hwritten

/-- The next level, or the root, is sound. -/
theorem RootLevel.Sound.next (hsound : l.Sound env target) (hdone : pending l.workers = [])
    (procs : Nat) : (l.next procs).Sound env target := by
  have hroot : PairFold.root zeroHash (sha256d env) (nodeHashes l.dst 32 ((l.n + 1) / 2)) =
      target := by
    rw [hsound.joined hdone, ← root_level, hsound.root]
    rw [nodeHashes, List.length_map, List.length_range]
    exact hsound.two
  have hdst := hsound.dst
  -- The buffer that was read is large enough for the level after the next.
  have hspare : ((l.n + 1) / 2 + 1) / 2 * 32 ≤ (if l.first then
      List.replicate (((l.n + 1) / 2 + 1) / 2 * 32) 0 else l.src : Bytes).length := by
    split_ifs with hfirst
    · rw [List.length_replicate]
    · have hsrc := hsound.src
      have htwo := hsound.two
      rw [hsound.reused (Bool.eq_false_iff.mpr hfirst)] at hsrc
      omega
  rw [RootLevel.next]
  by_cases hmore : 1 < (l.n + 1) / 2
  · rw [if_pos hmore]
    refine ⟨hmore, Nat.le_refl 32, fun _ => rfl, hdst, hspare, hroot, ?_, ?_⟩
    · rw [List.nil_append, pending_levelRanges]
    · intro p hp
      exact absurd hp List.not_mem_nil
  · have hone : (l.n + 1) / 2 = 1 := by
      have htwo := hsound.two
      omega
    rw [hone] at hroot hdst
    rw [if_neg hmore, finishRoot_eq hdst]
    exact hroot

/-- What one step does to a sound state. -/
theorem RootStep.sound (hstep : RootStep env s s') (hsound : s.Sound env target) :
    s'.Sound env target := by
  cases hstep with
  | write htakes hwrite => exact RootLevel.Sound.write hsound htakes hwrite
  | panic htakes hpanic =>
      rw [writeParent?_eq hsound.stride hsound.src hsound.dst
        (RootLevel.Sound.slot_lt hsound htakes)] at hpanic
      cases hpanic
  | join hdone procs => exact RootLevel.Sound.next hsound hdone procs

theorem startRoot_sound (hpos : 1 ≤ n) (hstride : 32 ≤ stride) (hnodes : n * stride ≤ nodes.length)
    (procs : Nat) :
    (startRoot procs nodes stride n).Sound env
      (root zeroHash (sha256d env) (nodeHashes nodes stride n)) := by
  rw [startRoot]
  split_ifs with hone
  · subst hone
    rw [finishRoot_eq (by omega), nodeHashes_one, root_singleton]
    rfl
  · have htwo : 2 ≤ n := by omega
    refine ⟨htwo, hstride, ?_, hnodes, ?_, rfl, ?_, ?_⟩
    · intro hfirst
      exact absurd hfirst.symm Bool.false_ne_true
    · rw [List.length_replicate]
    · rw [List.nil_append, pending_levelRanges]
    · intro p hp
      exact absurd hp List.not_mem_nil

/-- What a run has left at most. -/
def RootState.left : RootState → Nat
  | .level l => 2 * l.n + 1 + (pending l.workers).length
  | .done _ => 0
  | .panic => 0

theorem RootStep.left_lt (hstep : RootStep env s s') : s'.left < s.left := by
  cases hstep with
  | write htakes hwrite =>
      have hlength := htakes.perm.length_eq
      rw [List.length_cons] at hlength
      simp only [RootState.left]
      omega
  | panic htakes hpanic =>
      simp only [RootState.left]
      omega
  | @join l hdone procs =>
      rw [RootLevel.next, RootState.left.eq_1 l, hdone, List.length_nil]
      by_cases hmore : 1 < (l.n + 1) / 2
      · rw [if_pos hmore]
        simp only [RootState.left, pending_levelRanges, List.length_range]
        omega
      · rw [if_neg hmore, finishRoot]
        cases hashAt? l.dst 32 0 with
        | some root => exact Nat.succ_pos _
        | none => exact Nat.succ_pos _

/-- A sound state is the root, or can go on. -/
theorem RootState.Sound.onwards (hsound : s.Sound env target) :
    s = .done target ∨ ∃ s', RootStep env s s' := by
  cases s with
  | done root => exact Or.inl (congrArg RootState.done hsound)
  | panic => exact hsound.elim
  | level l =>
      right
      by_cases hdone : pending l.workers = []
      · exact ⟨_, .join hdone 1⟩
      · obtain ⟨slot, workers, htakes⟩ := exists_takes hdone
        cases hwrite : writeParent? env l.dst l.src l.stride l.n slot with
        | some dst => exact ⟨_, .write htakes hwrite⟩
        | none => exact ⟨_, .panic htakes hwrite⟩

theorem RootState.Sound.run (hsound : s.Sound env target)
    (hrun : Relation.ReflTransGen (RootStep env) s s') : s'.Sound env target := by
  induction hrun with
  | refl => exact hsound
  | tail _ hstep ih => exact hstep.sound ih

variable (env) in
theorem rootStep_wellFounded : WellFounded fun s' s => RootStep env s s' :=
  Subrelation.wf (fun hstep => hstep.left_lt) (measure RootState.left).wf

end Runs

/-- What the runs of `subtreeRoot` do: they stay within the buffers, write every parent of a
level once, go on until they are done, are done some time, and then have the pair fold. -/
structure RootRuns (env : Env) (procs : Nat) (nodes : Bytes) (stride n : Nat) : Prop where
  inBounds : ¬ Relation.ReflTransGen (RootStep env) (startRoot procs nodes stride n) .panic
  once : ∀ l, Relation.ReflTransGen (RootStep env) (startRoot procs nodes stride n) (.level l) →
    (l.written ++ pending l.workers).Perm (List.range ((l.n + 1) / 2))
  onwards : ∀ s, Relation.ReflTransGen (RootStep env) (startRoot procs nodes stride n) s →
    (∃ root, s = .done root) ∨ ∃ s', RootStep env s s'
  ends : Acc (fun s' s => RootStep env s s') (startRoot procs nodes stride n)
  exact : ∀ root,
    Relation.ReflTransGen (RootStep env) (startRoot procs nodes stride n) (.done root) →
      root = PairFold.root zeroHash (sha256d env) (nodeHashes nodes stride n)

/-- A payload has its header, and as many records as it counts. -/
structure Complete (env : Env) (msgType : UInt8) (payload : Bytes) : Prop where
  header : env.subtreeDataPayloadHeaderSize ≤ payload.length
  records : nodeCount payload * nodeStride msgType ≤
    payload.length - env.subtreeDataPayloadHeaderSize

section Exact

variable (env : Env)

theorem rootRuns {nodes : Bytes} {stride n : Nat} (hpos : 1 ≤ n) (hstride : 32 ≤ stride)
    (hnodes : n * stride ≤ nodes.length) (procs : Nat) : RootRuns env procs nodes stride n := by
  have hstart : (startRoot procs nodes stride n).Sound env _ :=
    startRoot_sound hpos hstride hnodes procs
  refine ⟨fun hrun => hstart.run hrun, fun l hrun => ?_, fun s hrun => ?_,
    (rootStep_wellFounded env).apply _, fun root hrun => hstart.run hrun⟩
  · have hsound : l.Sound env _ := hstart.run hrun
    exact hsound.once
  · rcases (hstart.run hrun).onwards with hdone | hstep
    · exact Or.inl ⟨_, hdone⟩
    · exact Or.inr hstep

/-- A complete payload is judged by its hashes. -/
theorem Complete.verify {env : Env} {msgType : UInt8} {payload : Bytes}
    (hcomplete : Complete env msgType payload) (root : Hash32) :
    verifySubtreePayload env root msgType payload =
      if payloadNodes env msgType payload = [] then .error .malformed
      else if PairFold.root zeroHash (sha256d env) (payloadNodes env msgType payload) ≠ root then
        .error .rootMismatch
      else .ok () := by
  have hstride : 0 < nodeStride msgType := by
    rw [nodeStride]
    split_ifs <;> decide
  have havail : nodeCount payload ≤
      (payload.length - env.subtreeDataPayloadHeaderSize) / nodeStride msgType :=
    (Nat.le_div_iff_mul_le hstride).mpr hcomplete.records
  have hempty : payloadNodes env msgType payload = [] ↔ nodeCount payload = 0 := by
    rw [← List.length_eq_zero_iff, length_payloadNodes]
  rw [verifySubtreePayload, if_neg (Nat.not_lt.mpr hcomplete.header)]
  by_cases hnone : nodeCount payload = 0
  · rw [if_pos (Or.inl hnone), if_pos (hempty.mpr hnone)]
  · rw [if_neg (by omega), if_neg (fun hnil => hnone (hempty.mp hnil))]
    dsimp only
    rw [subtreeRoot_eq_root env _ _ _ (Nat.pos_of_ne_zero hnone)]
    rfl

/-- However the levels are split and the workers interleave, the root is the pair fold of
the node hashes; so it depends on the hashes alone, and so does the verdict on a payload,
whatever the size of its records. -/
theorem subtreeRoot_exact :
    (∀ (nodes : Bytes) (stride n procs : Nat), 1 ≤ n → 32 ≤ stride →
      n * stride ≤ nodes.length → RootRuns env procs nodes stride n ∧
        subtreeRoot env nodes stride n =
          PairFold.root zeroHash (sha256d env) (nodeHashes nodes stride n)) ∧
      (∀ (nodes nodes' : Bytes) (stride stride' n : Nat), 1 ≤ n →
        nodeHashes nodes stride n = nodeHashes nodes' stride' n →
          subtreeRoot env nodes stride n = subtreeRoot env nodes' stride' n) ∧
      ∀ (root : Hash32) (msgType msgType' : UInt8) (payload payload' : Bytes),
        Complete env msgType payload → Complete env msgType' payload' →
        payloadNodes env msgType payload = payloadNodes env msgType' payload' →
          verifySubtreePayload env root msgType payload =
            verifySubtreePayload env root msgType' payload' := by
  refine ⟨?_, ?_, ?_⟩
  · intro nodes stride n procs hpos hstride hnodes
    exact ⟨rootRuns env hpos hstride hnodes procs, subtreeRoot_eq_root env nodes stride n hpos⟩
  · intro nodes nodes' stride stride' n hpos hsame
    rw [subtreeRoot_eq_root env _ _ _ hpos, subtreeRoot_eq_root env _ _ _ hpos, hsame]
  · intro root msgType msgType' payload payload' hcomplete hcomplete' hsame
    rw [hcomplete.verify, hcomplete'.verify, hsame]

end Exact

section Sample

/-- Three records of some size, and a payload of them. -/
def threeRecords (stride : Nat) : Bytes :=
  List.replicate (3 * stride) 1

def threePayload (stride : Nat) : Bytes :=
  List.replicate 23 0 ++ [3] ++ threeRecords stride

/-- Three nodes with their hashes only and in full: one root, and one verdict. -/
theorem subtreeRoot_exact_sample :
    RootRuns Reference.env 4 (threeRecords 48) 48 3 ∧
      subtreeRoot Reference.env (threeRecords 32) 32 3 =
        subtreeRoot Reference.env (threeRecords 48) 48 3 ∧
      verifySubtreePayload Reference.env zeroHash 1 (threePayload 32) =
        verifySubtreePayload Reference.env zeroHash subtreeMsgFullNodes (threePayload 48) := by
  obtain ⟨hruns, hroot, hverdict⟩ := subtreeRoot_exact Reference.env
  refine ⟨(hruns _ 48 3 4 (by decide) (by decide) (by decide +kernel)).1,
    hroot _ _ 32 48 3 (by decide) (by decide +kernel), ?_⟩
  exact hverdict zeroHash 1 subtreeMsgFullNodes _ _ ⟨by decide +kernel, by decide +kernel⟩
    ⟨by decide +kernel, by decide +kernel⟩ (by decide +kernel)

end Sample

end ShardProxy
