/-
Within-batch coalescing.  Small transactions of one flow wait in a bucket of
the worker's queue and leave packed into BRC-142 bundles at the end of the
batch, each bundle under a SeqNum of the flow.
-/
import ShardProxy.Emission

namespace ShardProxy

open ByteField Dispenser

/-- The waiting members of one flow. -/
structure CoalBucket where
  ip : IPv6
  group : UInt32
  subtree : Hash32
  members : List Member
deriving DecidableEq

def CoalBucket.flow (bk : CoalBucket) : ChainKey :=
  ⟨bk.ip, bk.group, bk.subtree⟩

/-- The buckets in the order their flows first appeared in the batch.  A bundle
takes at least one member and no more than its count field can say. -/
@[ext] structure CoalBuffer where
  buckets : List CoalBucket
  maxMembers : Nat
  maxMembers_pos : 0 < maxMembers
  maxMembers_le : maxMembers ≤ bundleMaxMembers
deriving DecidableEq

def newCoalBuffer (maxMembers : Int) : CoalBuffer :=
  if h : maxMembers ≤ 0 ∨ (bundleMaxMembers : Int) < maxMembers then
    ⟨[], bundleMaxMembers, by decide, Nat.le_refl _⟩
  else ⟨[], maxMembers.toNat, by omega, by omega⟩

/-- Append a member to its flow's bucket, or open one at the end. -/
def addMember (flow : ChainKey) (member : Member) : List CoalBucket → List CoalBucket
  | [] => [⟨flow.ip, flow.grp, flow.sub, [member]⟩]
  | bk :: rest =>
      if bk.group = flow.grp ∧ bk.ip = flow.ip ∧ bk.subtree = flow.sub then
        { bk with members := bk.members ++ [member] } :: rest
      else bk :: addMember flow member rest

def CoalBuffer.add (coal : CoalBuffer) (flow : ChainKey) (member : Member) : CoalBuffer :=
  { coal with buckets := addMember flow member coal.buckets }

def CoalBuffer.reset (coal : CoalBuffer) : CoalBuffer :=
  { coal with buckets := [] }

/-- The flows after one more member are the flows before it and its own. -/
theorem flow_mem_addMember {flow : ChainKey} {member : Member} {buckets : List CoalBucket}
    {bk : CoalBucket} (hbk : bk ∈ addMember flow member buckets) :
    bk.flow = flow ∨ ∃ old ∈ buckets, bk.flow = old.flow := by
  induction buckets with
  | nil =>
      left
      obtain rfl : bk = ⟨flow.ip, flow.grp, flow.sub, [member]⟩ := by
        simpa [addMember] using hbk
      rfl
  | cons head tail ih =>
      rw [addMember] at hbk
      split at hbk
      · rcases List.mem_cons.mp hbk with rfl | htail
        · exact Or.inr ⟨head, List.mem_cons_self, rfl⟩
        · exact Or.inr ⟨bk, List.mem_cons_of_mem head htail, rfl⟩
      · rcases List.mem_cons.mp hbk with rfl | htail
        · exact Or.inr ⟨bk, List.mem_cons_self, rfl⟩
        · rcases ih htail with hnew | ⟨old, hold, hflow⟩
          · exact Or.inl hnew
          · exact Or.inr ⟨old, List.mem_cons_of_mem head hold, hflow⟩

/-- A waiting member is the new one, under its own flow, or waited before under
the same flow. -/
theorem mem_addMember {flow : ChainKey} {member waiting : Member} {buckets : List CoalBucket}
    {bk : CoalBucket} (hbk : bk ∈ addMember flow member buckets)
    (hwaiting : waiting ∈ bk.members) :
    (waiting = member ∧ bk.flow = flow) ∨
      ∃ old ∈ buckets, bk.flow = old.flow ∧ waiting ∈ old.members := by
  induction buckets with
  | nil =>
      obtain rfl : bk = ⟨flow.ip, flow.grp, flow.sub, [member]⟩ := by
        simpa [addMember] using hbk
      exact Or.inl ⟨List.mem_singleton.mp hwaiting, rfl⟩
  | cons head tail ih =>
      rw [addMember] at hbk
      split at hbk
      · rename_i hmatch
        rcases List.mem_cons.mp hbk with rfl | htail
        · rcases List.mem_append.mp hwaiting with hold | hnew
          · exact Or.inr ⟨head, List.mem_cons_self, rfl, hold⟩
          · obtain ⟨hgroup, hip, hsubtree⟩ := hmatch
            refine Or.inl ⟨List.mem_singleton.mp hnew, ?_⟩
            rw [CoalBucket.flow, hip, hgroup, hsubtree]
        · exact Or.inr ⟨bk, List.mem_cons_of_mem head htail, rfl, hwaiting⟩
      · rcases List.mem_cons.mp hbk with rfl | htail
        · exact Or.inr ⟨bk, List.mem_cons_self, rfl, hwaiting⟩
        · rcases ih htail with hnew | ⟨old, hold, hflow⟩
          · exact Or.inl hnew
          · exact Or.inr ⟨old, List.mem_cons_of_mem head hold, hflow⟩

/-- The members of the next bundle and what is left.  The first member always
fits; `count` and `size` are those of the bundle so far. -/
def takeBundle (overhead : Nat) (maxBytes : Int) (maxMembers : Nat) :
    Nat → Nat → List Member → List Member × List Member
  | _, _, [] => ([], [])
  | count, size, member :: rest =>
      let add := overhead + member.tx.length
      if count < maxMembers ∧ ¬ (0 < count ∧ maxBytes < ((size + add : Nat) : Int)) then
        let (taken, left) := takeBundle overhead maxBytes maxMembers (count + 1)
          (size + add) rest
        (member :: taken, left)
      else ([], member :: rest)

/-- Cut a bucket's members into bundles.  Each bundle takes a member, so as
many rounds as there are members are enough. -/
def packBundles (overhead : Nat) (maxBytes : Int) (maxMembers : Nat) :
    Nat → List Member → List (List Member)
  | 0, _ => []
  | _ + 1, [] => []
  | rounds + 1, members =>
      let (taken, left) := takeBundle overhead maxBytes maxMembers 0 bundleHeaderSize members
      taken :: packBundles overhead maxBytes maxMembers rounds left

theorem takeBundle_append (overhead : Nat) (maxBytes : Int) (maxMembers count size : Nat)
    (members : List Member) :
    (takeBundle overhead maxBytes maxMembers count size members).1 ++
      (takeBundle overhead maxBytes maxMembers count size members).2 = members := by
  induction members generalizing count size with
  | nil => rfl
  | cons member rest ih =>
      rw [takeBundle]
      split
      · exact congrArg (List.cons member) (ih _ _)
      · rfl

theorem takeBundle_left_lt (overhead : Nat) (maxBytes : Int) {maxMembers : Nat}
    (hmax : 0 < maxMembers) (size : Nat) (member : Member) (rest : List Member) :
    (takeBundle overhead maxBytes maxMembers 0 size (member :: rest)).2.length ≤
      rest.length := by
  have htake := takeBundle_append overhead maxBytes maxMembers (0 + 1)
    (size + (overhead + member.tx.length)) rest
  have hlength := congrArg List.length htake
  rw [List.length_append] at hlength
  simp only [takeBundle, hmax, Nat.lt_irrefl, false_and, not_false_eq_true, and_self,
    ↓reduceIte]
  omega

/-- Packing keeps every member, in order. -/
theorem flatten_packBundles (overhead : Nat) (maxBytes : Int) {maxMembers : Nat}
    (hmax : 0 < maxMembers) (rounds : Nat) (members : List Member)
    (hrounds : members.length ≤ rounds) :
    (packBundles overhead maxBytes maxMembers rounds members).flatten = members := by
  induction rounds generalizing members with
  | zero => simp [packBundles, List.length_eq_zero_iff.mp (Nat.le_zero.mp hrounds)]
  | succ rounds ih =>
      cases members with
      | nil => rfl
      | cons member rest =>
          have hleft := takeBundle_left_lt overhead maxBytes hmax bundleHeaderSize member rest
          rw [List.length_cons] at hrounds
          rw [packBundles, List.flatten_cons, ih _ (by omega)]
          · exact takeBundle_append overhead maxBytes maxMembers 0 _ (member :: rest)
          · simp

/-- Every bundle has a member: the first one always fits. -/
theorem ne_nil_of_mem_packBundles {overhead : Nat} {maxBytes : Int} {maxMembers : Nat}
    (hmax : 0 < maxMembers) {rounds : Nat} {members taken : List Member}
    (htaken : taken ∈ packBundles overhead maxBytes maxMembers rounds members) :
    taken ≠ [] := by
  induction rounds generalizing members with
  | zero => cases htaken
  | succ rounds ih =>
      cases members with
      | nil => cases htaken
      | cons member rest =>
          simp only [packBundles, List.mem_cons] at htaken
          rcases htaken with rfl | hlater
          · simp [takeBundle, hmax]
          · exact ih hlater

theorem mem_of_mem_packBundles {overhead : Nat} {maxBytes : Int} {maxMembers : Nat}
    (hmax : 0 < maxMembers) {members taken : List Member} {member : Member}
    (htaken : taken ∈ packBundles overhead maxBytes maxMembers members.length members)
    (hmember : member ∈ taken) : member ∈ members := by
  rw [← flatten_packBundles overhead maxBytes hmax members.length members (Nat.le_refl _)]
  exact List.mem_flatten_of_mem htaken hmember

/-- The length of a bundle's members with their overheads. -/
def membersSize (overhead : Nat) (members : List Member) : Nat :=
  (members.map fun member => overhead + member.tx.length).sum

theorem takeBundle_count (overhead : Nat) (maxBytes : Int) {maxMembers count : Nat} (size : Nat)
    (members : List Member) (hcount : count ≤ maxMembers) :
    count + (takeBundle overhead maxBytes maxMembers count size members).1.length ≤
      maxMembers := by
  induction members generalizing count size with
  | nil => exact hcount
  | cons member rest ih =>
      rw [takeBundle]
      split
      · rename_i hroom
        have htail := ih (size + (overhead + member.tx.length)) (Nat.add_one_le_iff.mpr hroom.1)
        rw [List.length_cons]
        omega
      · exact hcount

theorem takeBundle_size (overhead : Nat) {maxBytes : Int} (maxMembers : Nat) {count size : Nat}
    (members : List Member) (hcount : 0 < count) (hsize : (size : Int) ≤ maxBytes) :
    ((size + membersSize overhead
      (takeBundle overhead maxBytes maxMembers count size members).1 : Nat) : Int) ≤ maxBytes := by
  induction members generalizing count size with
  | nil => exact hsize
  | cons member rest ih =>
      rw [takeBundle]
      split
      · rename_i hroom
        have hfits : ((size + (overhead + member.tx.length) : Nat) : Int) ≤ maxBytes := by
          by_contra hover
          exact hroom.2 ⟨hcount, Int.not_le.mp hover⟩
        have htail := ih (Nat.add_pos_right count Nat.one_pos) hfits
        simp only [membersSize, List.map_cons, List.sum_cons] at htail ⊢
        omega
      · exact hsize

/-- The first bundle of members that each fit one fits its budget and its count. -/
theorem takeBundle_bounded {overhead : Nat} {maxBytes : Int} {maxMembers : Nat}
    (hmax : 0 < maxMembers) {member : Member} (rest : List Member)
    (hfits : ((bundleHeaderSize + overhead + member.tx.length : Nat) : Int) ≤ maxBytes) :
    (takeBundle overhead maxBytes maxMembers 0 bundleHeaderSize (member :: rest)).1.length ≤
        maxMembers ∧
      ((bundleHeaderSize + membersSize overhead
        (takeBundle overhead maxBytes maxMembers 0 bundleHeaderSize (member :: rest)).1 : Nat) :
          Int) ≤ maxBytes := by
  constructor
  · have hcount := takeBundle_count overhead maxBytes bundleHeaderSize (member :: rest)
      (Nat.zero_le maxMembers)
    omega
  · have hsize := takeBundle_size overhead maxMembers rest Nat.one_pos
      (show ((bundleHeaderSize + (overhead + member.tx.length) : Nat) : Int) ≤ maxBytes by omega)
    simp only [takeBundle, hmax, Nat.lt_irrefl, false_and, not_false_eq_true, and_self,
      ↓reduceIte, Nat.zero_add, membersSize, List.map_cons, List.sum_cons] at hsize ⊢
    omega

theorem packBundles_bounded {overhead : Nat} {maxBytes : Int} {maxMembers : Nat}
    (hmax : 0 < maxMembers) {rounds : Nat} {members taken : List Member}
    (hfits : ∀ member ∈ members,
      ((bundleHeaderSize + overhead + member.tx.length : Nat) : Int) ≤ maxBytes)
    (htaken : taken ∈ packBundles overhead maxBytes maxMembers rounds members) :
    taken.length ≤ maxMembers ∧
      ((bundleHeaderSize + membersSize overhead taken : Nat) : Int) ≤ maxBytes := by
  induction rounds generalizing members with
  | zero => cases htaken
  | succ rounds ih =>
      cases members with
      | nil => cases htaken
      | cons member rest =>
          simp only [packBundles, List.mem_cons] at htaken
          rcases htaken with rfl | hlater
          · exact takeBundle_bounded hmax rest (hfits member List.mem_cons_self)
          · apply ih _ hlater
            intro later hmem
            apply hfits
            rw [← takeBundle_append overhead maxBytes maxMembers 0 bundleHeaderSize
              (member :: rest)]
            exact List.mem_append_right _ hmem

section Flush

variable (env : Env) (fw : Forwarder)

/-- A bundle of a bucket's members with its flow's stamps. -/
def bundleOf (bk : CoalBucket) (members : List Member) (hashKey seqNum : UInt64) :
    Bundle where
  groupIdx := bk.group.toUInt16
  shardBits := UInt8.ofNat fw.engine.shardBits
  subtreeID := bk.subtree
  flags := if fw.coalesceCarryTxid then flagTxIDsPresent else 0
  hashKey := hashKey
  seqNum := seqNum
  members := members

/-- Queue the bundles of one bucket; a bundle that does not encode is skipped
after its SeqNum was drawn. -/
def flushBundles (bk : CoalBucket) : List (List Member) → Emit PUnit
  | [] => pure ⟨⟩
  | members :: rest => do
      let (hashKey, seqNum) ← nextSeq env bk.flow
      sendEncoded (fun raw => enqueueData raw (fw.addrFor bk.group) bk.group)
        (env.encodeBundle (bundleOf fw bk members hashKey seqNum))
      flushBundles bk rest

def Forwarder.bundleBudget : Int :=
  if fw.coalesceBudget ≤ 0 then (defaultCoalesceMaxBytes - ipv6UDPHeaderSize : Nat)
  else fw.coalesceBudget

def flushBuckets (maxMembers : Nat) : List CoalBucket → Emit PUnit
  | [] => pure ⟨⟩
  | bk :: rest => do
      flushBundles env fw bk
        (packBundles (env.memberOverhead fw.coalesceCarryTxid) fw.bundleBudget maxMembers
          bk.members.length bk.members)
      flushBuckets maxMembers rest

/-- `FlushCoalesced` on a worker's buffer; the buffer is reset after it. -/
def flushCoalesced (coal : CoalBuffer) : Emit PUnit :=
  flushBuckets env fw coal.maxMembers coal.buckets

variable {env fw}

/-- A datagram of a flushed bucket is a bundle of its members under its flow's
HashKey. -/
theorem mem_flushBundles_outputs {bk : CoalBucket} {bundles : List (List Member)}
    {chains : Chains} {req : EnqueueReq}
    (hreq : req ∈ (run (flushBundles env fw bk bundles) chains).outputs) :
    ∃ members ∈ bundles, ∃ seqNum,
      env.encodeBundle (bundleOf fw bk members (env.hashKey bk.flow) seqNum) = some req.raw := by
  induction bundles generalizing chains with
  | nil => cases hreq
  | cons members rest ih =>
      simp only [flushBundles, run_bind, run_nextSeq, List.nil_append] at hreq
      rcases List.mem_append.mp hreq with hfirst | hlater
      · refine ⟨members, List.mem_cons_self, lastSeq chains bk.flow + 1, ?_⟩
        cases hencode : env.encodeBundle (bundleOf fw bk members (env.hashKey bk.flow)
            (lastSeq chains bk.flow + 1)) with
        | none =>
            rw [hencode] at hfirst
            cases hfirst
        | some datagram =>
            rw [hencode] at hfirst
            obtain rfl := List.mem_singleton.mp hfirst
            rfl
      · obtain ⟨found, hfound, seqNum, hencode⟩ := ih hlater
        exact ⟨found, List.mem_cons_of_mem _ hfound, seqNum, hencode⟩

theorem mem_flushBuckets_outputs {maxMembers : Nat} (hmax : 0 < maxMembers)
    {buckets : List CoalBucket} {chains : Chains} {req : EnqueueReq}
    (hreq : req ∈ (run (flushBuckets env fw maxMembers buckets) chains).outputs) :
    ∃ bk ∈ buckets, ∃ members, members ≠ [] ∧ (∀ member ∈ members, member ∈ bk.members) ∧
      ∃ seqNum,
        env.encodeBundle (bundleOf fw bk members (env.hashKey bk.flow) seqNum) = some req.raw := by
  induction buckets generalizing chains with
  | nil => cases hreq
  | cons bk rest ih =>
      simp only [flushBuckets, run_bind] at hreq
      rcases List.mem_append.mp hreq with hfirst | hlater
      · obtain ⟨members, hmembers, seqNum, hencode⟩ := mem_flushBundles_outputs hfirst
        refine ⟨bk, List.mem_cons_self, members, ne_nil_of_mem_packBundles hmax hmembers, ?_,
          seqNum, hencode⟩
        intro member hmember
        exact mem_of_mem_packBundles hmax hmembers hmember
      · obtain ⟨found, hfound, hbundle⟩ := ih hlater
        exact ⟨found, List.mem_cons_of_mem _ hfound, hbundle⟩

end Flush

end ShardProxy
