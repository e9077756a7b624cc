/-
What the subtree-root gate proves of a node list.  A payload is accepted for a
root when its hashes fold to it, and other lists fold to the same root: one that
repeats its last hash, one that leaves an absent hash out, or the root as a list
of its own.  Among lists of one length with no absent hash the root does name
one.
-/
import ShardProxy.ClaimDiscipline

namespace ShardProxy

open ByteField PairFold

section Lists

variable (env : Env)

/-- The payload is accepted for the root. -/
def AcceptedFor (root : Hash32) (msgType : UInt8) (payload : Bytes) : Prop :=
  verifySubtreePayload env root msgType payload = .ok ()

def listPayload (nodes : List Hash32) : Bytes :=
  ([List.replicate 16 0, spellNat 8 nodes.length,
    List.replicate (env.subtreeDataPayloadHeaderSize - 24) 0] ++
      nodes.map FixedBytes.bytes).flatten

theorem length_flatten_hashes (nodes : List Hash32) :
    (nodes.map FixedBytes.bytes).flatten.length = 32 * nodes.length := by
  induction nodes with
  | nil => rfl
  | cons node rest ih =>
      rw [List.map_cons, List.flatten_cons, List.length_append, node.size, ih, List.length_cons,
        Nat.mul_succ, Nat.add_comm]

theorem nodeHashes_flatten (nodes : List Hash32) :
    nodeHashes (nodes.map FixedBytes.bytes).flatten 32 nodes.length = nodes := by
  apply List.ext_getElem?
  intro i
  by_cases hi : i < nodes.length
  · have hpart : (nodes.map FixedBytes.bytes)[i]? = some nodes[i].bytes := by simp [hi]
    have hoff : ((nodes.map FixedBytes.bytes).take i).flatten.length = i * 32 := by
      rw [← List.map_take, length_flatten_hashes, List.length_take_of_le (Nat.le_of_lt hi),
        Nat.mul_comm]
    have hfield := field_flatten i hpart hoff nodes[i].size
    simp [nodeHashes, hashAt, hi, hfield]
  · simp [nodeHashes, hi]

variable {env} (hheader : 24 ≤ env.subtreeDataPayloadHeaderSize) {nodes : List Hash32}

include hheader

theorem drop_listPayload :
    (listPayload env nodes).drop env.subtreeDataPayloadHeaderSize =
      (nodes.map FixedBytes.bytes).flatten := by
  rw [listPayload, List.flatten_append]
  apply List.drop_left'
  simp
  omega

theorem length_listPayload :
    (listPayload env nodes).length = env.subtreeDataPayloadHeaderSize + 32 * nodes.length := by
  rw [listPayload, List.flatten_append, List.length_append, length_flatten_hashes]
  simp
  omega

omit hheader in
theorem nodeCount_listPayload (hcount : nodes.length < 2 ^ 64) :
    nodeCount (listPayload env nodes) = nodes.length := by
  have hspelt : uint64At (listPayload env nodes) 16 = UInt64.ofNat nodes.length := by
    apply uint64At_flatten 1
    · rw [UInt64.toNat_ofNat_of_lt' hcount]
      rfl
    · simp
  rw [nodeCount, hspelt, UInt64.toNat_ofNat_of_lt' hcount]

theorem payloadNodes_listPayload (hcount : nodes.length < 2 ^ 64) {msgType : UInt8}
    (hstride : nodeStride msgType = 32) :
    payloadNodes env msgType (listPayload env nodes) = nodes := by
  rw [payloadNodes, drop_listPayload hheader, hstride, nodeCount_listPayload hcount,
    nodeHashes_flatten]

/-- A list that is not empty is accepted for its root. -/
theorem acceptedFor_listPayload (hcount : nodes.length < 2 ^ 64) (hsome : nodes ≠ [])
    {msgType : UInt8} (hstride : nodeStride msgType = 32) :
    AcceptedFor env (root zeroHash (sha256d env) nodes) msgType (listPayload env nodes) := by
  apply (verifySubtreePayload_ok_iff env _ _ _).mpr
  refine ⟨?_, ?_, ?_, ?_⟩
  · rw [length_listPayload hheader]
    exact Nat.le_add_right _ _
  · rw [nodeCount_listPayload hcount]
    exact fun hnone => hsome (List.length_eq_zero_iff.mp hnone)
  · rw [nodeCount_listPayload hcount, length_listPayload hheader, hstride,
      Nat.add_sub_cancel_left, Nat.mul_div_cancel_left _ (by decide)]
  · rw [payloadNodes_listPayload hheader hcount hstride]

end Lists

section Pinning

variable (env : Env) (fw : Forwarder)

/-- The gate pins the list a root names: payloads accepted for the root carry one
list, and a frame under the root with any other is dropped with nothing
claimed. -/
structure PinsRoot (target : Hash32) : Prop where
  lists : ∀ {leftType rightType : UInt8} {left right : Bytes},
    AcceptedFor env target leftType left → AcceptedFor env target rightType right →
      payloadNodes env leftType left = payloadNodes env rightType right
  gate : ∀ {raw : Bytes} {sf : SubtreeDataFrame} {goodType : UInt8} {good : Bytes}
    (src : Option NetAddr) (st : FwState), env.decodeSubtreeData raw = some sf →
    sf.subtreeID = target → AcceptedFor env target goodType good →
    payloadNodes env sf.msgType sf.payload ≠ payloadNodes env goodType good →
      ∃ drop, processSubtreeData env fw raw src st = (.error drop, st)

/-- The root is no absent hash and the hash of no pair of present ones. -/
structure IsLeaf (target : Hash32) : Prop where
  present : target ≠ zeroHash
  unhashed : ∀ left right, left ≠ zeroHash → right ≠ zeroHash → target ≠ sha256d env left right

/-- No pair hashed for one list collides with another hashed for the other, and
none of them hashes to zero. -/
structure CollisionFree (left right : List Hash32) : Prop where
  distinct : ∀ p ∈ rootPairs zeroHash (sha256d env) left,
    ∀ q ∈ rootPairs zeroHash (sha256d env) right,
      sha256d env p.1 p.2 = sha256d env q.1 q.2 → p = q
  present : ∀ p, p ∈ rootPairs zeroHash (sha256d env) left ∨
    p ∈ rootPairs zeroHash (sha256d env) right → sha256d env p.1 p.2 ≠ zeroHash

variable {env fw}

theorem AcceptedFor.root {target : Hash32} {msgType : UInt8} {payload : Bytes}
    (haccepted : AcceptedFor env target msgType payload) :
    payloadNodes env msgType payload ≠ [] ∧
      PairFold.root zeroHash (sha256d env) (payloadNodes env msgType payload) = target := by
  obtain ⟨_, hsome, _, hroot⟩ := (verifySubtreePayload_ok_iff env _ _ _).mp haccepted
  refine ⟨?_, hroot⟩
  intro hnone
  rw [← length_payloadNodes env msgType payload, hnone] at hsome
  exact hsome rfl

/-- With the gate on, a payload that is not accepted is dropped ahead of its
claim. -/
theorem processSubtreeData_refuses (hverify : fw.verifySubtreeRoot = true) {raw : Bytes}
    {sf : SubtreeDataFrame} (hdecode : env.decodeSubtreeData raw = some sf)
    (hrefused : ¬ AcceptedFor env sf.subtreeID sf.msgType sf.payload) (src : Option NetAddr)
    (st : FwState) : ∃ drop, processSubtreeData env fw raw src st = (.error drop, st) := by
  cases hresult : verifySubtreePayload env sf.subtreeID sf.msgType sf.payload with
  | ok passed => exact absurd hresult hrefused
  | error error =>
      have hgates : subtreeGates env fw raw = .error (.subtreeRoot error) := by
        simp only [subtreeGates, hdecode, hverify, ↓reduceIte, hresult]
      exact ⟨_, by rw [processSubtreeData, Fw.gate_bind_error hgates]⟩

/-- One list for the root is enough: the gate does the rest. -/
theorem PinsRoot.of_lists (hverify : fw.verifySubtreeRoot = true) {target : Hash32}
    (hlists : ∀ {leftType rightType : UInt8} {left right : Bytes},
      AcceptedFor env target leftType left → AcceptedFor env target rightType right →
        payloadNodes env leftType left = payloadNodes env rightType right) :
    PinsRoot env fw target where
  lists := hlists
  gate := by
    intro raw sf goodType good src st hdecode htarget hgood hother
    refine processSubtreeData_refuses hverify hdecode ?_ src st
    intro haccepted
    rw [htarget] at haccepted
    exact hother (hlists haccepted hgood)

/-- The root as a list of its own is accepted, so a pinned root has no other. -/
theorem PinsRoot.eq_singleton (hheader : 24 ≤ env.subtreeDataPayloadHeaderSize)
    {target : Hash32} (hpinned : PinsRoot env fw target) {nodes : List Hash32}
    (hcount : nodes.length < 2 ^ 64) (hsome : nodes ≠ [])
    (hroot : root zeroHash (sha256d env) nodes = target) : nodes = [target] := by
  have hstride : nodeStride 1 = 32 := rfl
  have hone : [target].length < 2 ^ 64 := by simp
  have haccepted := acceptedFor_listPayload hheader hcount hsome hstride
  have hsingle := acceptedFor_listPayload hheader hone (List.cons_ne_nil _ _) hstride
  rw [hroot] at haccepted
  have hsame := hpinned.lists haccepted hsingle
  rwa [payloadNodes_listPayload hheader hcount hstride,
    payloadNodes_listPayload hheader hone hstride] at hsame

theorem pinsRoot_iff (hheader : 24 ≤ env.subtreeDataPayloadHeaderSize)
    (hverify : fw.verifySubtreeRoot = true) (target : Hash32) :
    PinsRoot env fw target ↔ IsLeaf env target := by
  constructor
  · intro hpinned
    constructor
    · rintro rfl
      have hpair := hpinned.eq_singleton hheader (by simp) (List.cons_ne_nil _ _)
        (root_absent_pair zeroHash (sha256d env))
      exact absurd (congrArg List.length hpair) (by simp)
    · rintro left right hleft hright rfl
      have hpair := hpinned.eq_singleton hheader (by simp) (List.cons_ne_nil _ _)
        (root_pair zeroHash (sha256d env) hleft hright)
      exact absurd (congrArg List.length hpair) (by simp)
  · rintro ⟨hpresent, hunhashed⟩
    refine PinsRoot.of_lists hverify ?_
    intro leftType rightType left right hleft hright
    rw [eq_singleton_of_root zeroHash (sha256d env) hpresent hunhashed hleft.root.1 hleft.root.2,
      eq_singleton_of_root zeroHash (sha256d env) hpresent hunhashed hright.root.1 hright.root.2]

/-- Payloads that count the same nodes, none of them absent. -/
theorem payloadNodes_eq_of_count {target : Hash32} {leftType rightType : UInt8}
    {left right : Bytes} (hleft : AcceptedFor env target leftType left)
    (hright : AcceptedFor env target rightType right) (hcount : nodeCount left = nodeCount right)
    (hleftPresent : zeroHash ∉ payloadNodes env leftType left)
    (hrightPresent : zeroHash ∉ payloadNodes env rightType right)
    (hfree : CollisionFree env (payloadNodes env leftType left)
      (payloadNodes env rightType right)) :
    payloadNodes env leftType left = payloadNodes env rightType right := by
  apply root_inj zeroHash (sha256d env) _ hleftPresent hrightPresent hfree.distinct hfree.present
  · exact hleft.root.2.trans hright.root.2.symm
  · rw [length_payloadNodes, length_payloadNodes, hcount]

/-- What the gate pins.  A root names one list exactly when it is a leaf: neither
absent nor the hash of a pair.  Whatever the root, payloads with the same count,
without absent hashes and without a collision carry the same list. -/
theorem subtreeGate_pins_iff (hheader : 24 ≤ env.subtreeDataPayloadHeaderSize)
    (hverify : fw.verifySubtreeRoot = true) :
    (∀ target, PinsRoot env fw target ↔ IsLeaf env target) ∧
      ∀ {target : Hash32} {leftType rightType : UInt8} {left right : Bytes},
        AcceptedFor env target leftType left → AcceptedFor env target rightType right →
        nodeCount left = nodeCount right → zeroHash ∉ payloadNodes env leftType left →
        zeroHash ∉ payloadNodes env rightType right →
        CollisionFree env (payloadNodes env leftType left) (payloadNodes env rightType right) →
          payloadNodes env leftType left = payloadNodes env rightType right :=
  ⟨pinsRoot_iff hheader hverify, payloadNodes_eq_of_count⟩

/-- An accepted frame takes the claim of its root, whatever its list. -/
theorem AcceptedFor.claims (hdec : DecodeLaws env) (hfrag : FragmentLaws env)
    (hsub : SubmissionLaws env) {ref : DedupRef} (hstore : fw.txDedup = some ref) {raw : Bytes}
    {sf : SubtreeDataFrame} (hdecode : env.decodeSubtreeData raw = some sf)
    (haccepted : AcceptedFor env sf.subtreeID sf.msgType sf.payload) (src : Option NetAddr)
    (st : FwState) :
    (ref.keySpace, sf.subtreeID) ∈ (processSubtreeData env fw raw src st).2.stores ref.store := by
  have hgates : subtreeGates env fw raw = .ok sf := by
    rw [AcceptedFor] at haccepted
    simp only [subtreeGates, hdecode, haccepted, ite_self]
  have houtcome : Outcome env fw (.subtreeData raw) src 0 st _ _ :=
    Entry.outcome hdec hfrag hsub hstore _ trivial
  refine (houtcome.mem_stores ref.store _).mpr (Or.inr
    ⟨⟨fw.txDedup, sf.subtreeID, sf.subtreeID, raw, sf.payload, true⟩, ref, ?_, hstore, rfl, rfl⟩)
  simp only [Entry.candidate, hgates]

end Pinning

section Sample

open Reference

def gatedForwarder : Forwarder :=
  { dedupForwarder with verifySubtreeRoot := true }

/-- Two nodes as hashes only, and with fees and sizes. -/
def hashesPayload : Bytes :=
  listPayload Reference.env [sampleID 1, sampleID 2]

def fullPayload : Bytes :=
  hashesPayload.take Reference.env.subtreeDataPayloadHeaderSize ++
    (sampleID 1).bytes ++ List.replicate 16 7 ++ (sampleID 2).bytes ++ List.replicate 16 7

theorem subtreeGate_pins_iff_sample :
    (∀ target, PinsRoot Reference.env gatedForwarder target ↔ IsLeaf Reference.env target) ∧
      payloadNodes Reference.env subtreeMsgHashesOnly hashesPayload =
        payloadNodes Reference.env subtreeMsgFullNodes fullPayload := by
  have hheader : 24 ≤ Reference.env.subtreeDataPayloadHeaderSize := by decide
  have hverify : gatedForwarder.verifySubtreeRoot = true := rfl
  have hhashes : AcceptedFor Reference.env (sha256d Reference.env (sampleID 1) (sampleID 2))
      subtreeMsgHashesOnly hashesPayload :=
    (verifySubtreePayload_ok_iff _ _ _ _).mpr (by decide +kernel)
  have hfull : AcceptedFor Reference.env (sha256d Reference.env (sampleID 1) (sampleID 2))
      subtreeMsgFullNodes fullPayload :=
    (verifySubtreePayload_ok_iff _ _ _ _).mpr (by decide +kernel)
  have hpresent : ∀ p ∈ rootPairs zeroHash (sha256d Reference.env)
        (payloadNodes Reference.env subtreeMsgHashesOnly hashesPayload) ++
      rootPairs zeroHash (sha256d Reference.env)
        (payloadNodes Reference.env subtreeMsgFullNodes fullPayload),
      sha256d Reference.env p.1 p.2 ≠ zeroHash := by
    decide +kernel
  obtain ⟨hroots, hlists⟩ := subtreeGate_pins_iff hheader hverify
  exact ⟨hroots, hlists hhashes hfull (by decide +kernel) (by decide +kernel) (by decide +kernel)
    ⟨by decide +kernel, fun p hp => hpresent p (List.mem_append.mpr hp)⟩⟩

def rootedPush (target : Hash32) (payload : Bytes) : Bytes :=
  encodeFields frameVerV5 ⟨subtreeMsgHashesOnly, target, 0, 0, zeroHash, payload⟩

theorem decode_rootedPush (target : Hash32) {payload : Bytes}
    (hlength : payload.length < 2 ^ 32) :
    Reference.env.decodeSubtreeData (rootedPush target payload) =
      some ⟨subtreeMsgHashesOnly, target, payload⟩ :=
  decodeSubtreeData_encodeFields ⟨subtreeMsgHashesOnly, target, 0, 0, zeroHash, payload⟩ hlength
    (Or.inl rfl)

theorem rootedPush_claims (target : Hash32) (payload : Bytes) (hlength : payload.length < 2 ^ 32)
    (haccepted : AcceptedFor Reference.env target subtreeMsgHashesOnly payload) :
    ("tx", target) ∈ (processSubtreeData Reference.env gatedForwarder (rootedPush target payload)
      (some (source 1)) state).2.stores 0 := by
  have hstore : gatedForwarder.txDedup = some ⟨0, "tx"⟩ := rfl
  exact AcceptedFor.claims decodeLaws fragmentLaws submissionLaws hstore
    (decode_rootedPush target hlength) haccepted _ _

/-- A list of three and the same with its last node repeated are accepted for one
root, and the second list can claim it ahead of the first. -/
theorem repeatedThird_accepted (first second third : Hash32) :
    ∃ target,
      AcceptedFor Reference.env target subtreeMsgHashesOnly
          (listPayload Reference.env [first, second, third]) ∧
        AcceptedFor Reference.env target subtreeMsgHashesOnly
          (listPayload Reference.env [first, second, third, third]) ∧
        ("tx", target) ∈ (processSubtreeData Reference.env gatedForwarder
          (rootedPush target (listPayload Reference.env [first, second, third, third]))
          (some (source 1)) state).2.stores 0 := by
  have hheader : 24 ≤ Reference.env.subtreeDataPayloadHeaderSize := by decide
  have hstride : nodeStride subtreeMsgHashesOnly = 32 := rfl
  have hthree : [first, second, third].length < 2 ^ 64 := by simp
  have hfour : [first, second, third, third].length < 2 ^ 64 := by simp
  have hlength : (listPayload Reference.env [first, second, third, third]).length < 2 ^ 32 := by
    rw [length_listPayload hheader]
    simp only [List.length_cons, List.length_nil]
    decide
  have hlist := acceptedFor_listPayload hheader hthree (List.cons_ne_nil _ _) hstride
  have hrepeated := acceptedFor_listPayload hheader hfour (List.cons_ne_nil _ _) hstride
  rw [root_repeat_third zeroHash (sha256d Reference.env)] at hrepeated
  exact ⟨_, hlist, hrepeated, rootedPush_claims _ _ hlength hrepeated⟩

/-- Two lists for one root: the first three samples, and these with the last one
repeated. -/
theorem repeatedNode_accepted :
    ∃ target left right,
      AcceptedFor Reference.env target subtreeMsgHashesOnly left ∧
        AcceptedFor Reference.env target subtreeMsgHashesOnly right ∧
        payloadNodes Reference.env subtreeMsgHashesOnly left =
          [sampleID 1, sampleID 2, sampleID 3] ∧
        payloadNodes Reference.env subtreeMsgHashesOnly right =
          [sampleID 1, sampleID 2, sampleID 3, sampleID 3] ∧
        ("tx", target) ∈ (processSubtreeData Reference.env gatedForwarder
          (rootedPush target right) (some (source 1)) state).2.stores 0 := by
  have hheader : 24 ≤ Reference.env.subtreeDataPayloadHeaderSize := by decide
  obtain ⟨target, hlist, hrepeated, hclaims⟩ :=
    repeatedThird_accepted (sampleID 1) (sampleID 2) (sampleID 3)
  exact ⟨target, _, _, hlist, hrepeated, payloadNodes_listPayload hheader (by simp) rfl,
    payloadNodes_listPayload hheader (by simp) rfl, hclaims⟩

end Sample

end ShardProxy
