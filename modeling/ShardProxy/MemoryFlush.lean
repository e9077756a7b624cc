/-
Flushing from memory.  The waiting transactions are bundled out of the receive buffers
they lie in; the bundles are the ones the forwarder makes of their bytes.
-/
import ShardProxy.MemoryRefines

namespace ShardProxy

open ByteField Dispenser SliceHeap Stateful

def bundlePiece (env : Env) (fw : Forwarder) (bk : CoalBucket) (members : List Member) :
    Emit PUnit := do
  let (hashKey, seqNum) ← nextSeq env bk.flow
  sendEncoded (fun raw => enqueueData raw (fw.addrFor bk.group) bk.group)
    (env.encodeBundle (bundleOf fw bk members hashKey seqNum))

namespace Mem

section Packing

variable (overhead maxMembers : Nat) (maxBytes : Int) {heap : Heap UInt8}

/-- Members are taken by the lengths of their slices, which are those of their bytes. -/
theorem takeSlices_shows {members : List SliceMember}
    (hinside : ∀ member ∈ members, member.tx.Inside heap) (count size : Nat) :
    takeBundle overhead maxBytes maxMembers count size
        (members.map (SliceMember.shows heap)) =
      ((takeSlices overhead maxBytes maxMembers count size members).1.map
          (SliceMember.shows heap),
        (takeSlices overhead maxBytes maxMembers count size members).2.map
          (SliceMember.shows heap)) := by
  induction members generalizing count size with
  | nil => rfl
  | cons member rest ih =>
      have hlength : (member.shows heap).tx.length = member.tx.len :=
        Heap.length_read (hinside member List.mem_cons_self)
      have hrest := ih (fun other hother => hinside other (List.mem_cons_of_mem _ hother))
        (count + 1) (size + (overhead + member.tx.len))
      simp only [List.map_cons, takeBundle, takeSlices, hlength]
      split
      · simp only [hrest, List.map_cons]
      · rfl

theorem takeSlices_subset {members : List SliceMember} (count size : Nat) :
    (∀ member ∈ (takeSlices overhead maxBytes maxMembers count size members).1,
        member ∈ members) ∧
      ∀ member ∈ (takeSlices overhead maxBytes maxMembers count size members).2,
        member ∈ members := by
  induction members generalizing count size with
  | nil => exact ⟨fun _ hmember => hmember, fun _ hmember => hmember⟩
  | cons member rest ih =>
      obtain ⟨htaken, hleft⟩ := ih (count + 1) (size + (overhead + member.tx.len))
      rw [takeSlices]
      dsimp only
      split
      · refine ⟨fun other hother => ?_, fun other hother => ?_⟩
        · rcases List.mem_cons.mp hother with rfl | hrest
          · exact List.mem_cons_self
          · exact List.mem_cons_of_mem _ (htaken other hrest)
        · exact List.mem_cons_of_mem _ (hleft other hother)
      · refine ⟨fun other hother => ?_, fun other hother => hother⟩
        cases hother

theorem packSlices_shows (rounds : Nat) {members : List SliceMember}
    (hinside : ∀ member ∈ members, member.tx.Inside heap) :
    packBundles overhead maxBytes maxMembers rounds (members.map (SliceMember.shows heap)) =
      (packSlices overhead maxBytes maxMembers rounds members).map
        (List.map (SliceMember.shows heap)) := by
  induction rounds generalizing members with
  | zero => rfl
  | succ rounds ih =>
      cases members with
      | nil => rfl
      | cons member rest =>
          have htake := takeSlices_shows overhead maxMembers maxBytes hinside 0 bundleHeaderSize
          have hleft := ih fun other hother => hinside other
            ((takeSlices_subset overhead maxMembers maxBytes 0 bundleHeaderSize).2 other hother)
          rw [List.map_cons] at htake
          simp only [List.map_cons, packBundles, packSlices, htake, hleft]

theorem packSlices_subset (rounds : Nat) {members : List SliceMember} :
    ∀ taken ∈ packSlices overhead maxBytes maxMembers rounds members,
      ∀ member ∈ taken, member ∈ members := by
  induction rounds generalizing members with
  | zero => exact fun _ htaken => by cases htaken
  | succ rounds ih =>
      cases members with
      | nil => exact fun _ htaken => by cases htaken
      | cons first rest =>
          intro taken htaken member hmember
          simp only [packSlices, List.mem_cons] at htaken
          rcases htaken with rfl | hlater
          · exact (takeSlices_subset overhead maxMembers maxBytes 0 _).1 member hmember
          · exact (takeSlices_subset overhead maxMembers maxBytes 0 _).2 member
              (ih taken hlater member hmember)

end Packing

section Flushing

variable {env : Env} {fw : Forwarder} {opts : EgressOpts} {slots : List Nat}
  {idle : List (Nat × Bytes)} {coal : SliceCoal} {shown : Heap UInt8}

/-- While a buffer is flushed its members stay where they are and keep their bytes. -/
def Flushing (fw : Forwarder) (opts : EgressOpts) (slots : List Nat) (idle : List (Nat × Bytes))
    (coal : SliceCoal) (shown : Heap UInt8) (s : MemState) (st : FwState) : Prop :=
  Represents fw opts slots idle s st ∧ s.coal = some coal ∧ st.coal = some (coal.shows shown)

theorem Flushing.bucket {s : MemState} {st : FwState}
    (hflush : Flushing fw opts slots idle coal shown s st) {bk : SliceBucket}
    (hbk : bk ∈ coal.buckets) : bk.shows s.heap = bk.shows shown := by
  obtain ⟨hrep, hcoal, hshown⟩ := hflush
  have hsame := hrep.coal
  rw [hcoal, hshown, Option.map_some, Option.some.injEq, SliceCoal.shows, SliceCoal.shows,
    CoalBuffer.mk.injEq] at hsame
  exact (List.map_inj_left.mp hsame.1 bk hbk).symm

theorem Flushing.members {s : MemState} {st : FwState}
    (hflush : Flushing fw opts slots idle coal shown s st) {bk : SliceBucket}
    (hbk : bk ∈ coal.buckets) {members : List SliceMember}
    (hmembers : ∀ member ∈ members, member ∈ bk.members) :
    members.map (SliceMember.shows s.heap) = members.map (SliceMember.shows shown) := by
  have hsame := congrArg CoalBucket.members (hflush.bucket hbk)
  have heach := List.map_inj_left.mp hsame
  exact List.map_congr_left fun member hmember => heach member (hmembers member hmember)

/-- Numbering a bundle leaves the waiting members. -/
theorem agrees_flushing_nextSeq (flow : ChainKey) :
    Agrees (Flushing fw opts slots idle coal shown) (Flushing fw opts slots idle coal shown)
      (Mem.nextSeq env flow) (Fw.emit (ShardProxy.nextSeq env flow)) := by
  rintro s st ⟨hrep, hcoal, hshown⟩
  have hshares := sharesOnly_nextSeq env flow
  obtain ⟨hresult, hstates⟩ := agrees_shares hshares s st hrep
  exact ⟨hresult, hstates, hcoal, (hshares.egress st).2.trans hshown⟩

/-- A bundle is made of the members as they lie. -/
theorem agrees_flushBundle {bk : SliceBucket} (hbk : bk ∈ coal.buckets)
    {members : List SliceMember} (hmembers : ∀ member ∈ members, member ∈ bk.members) :
    Agrees (Flushing fw opts slots idle coal shown) (Flushing fw opts slots idle coal shown)
      (Mem.flushBundle env fw opts bk members)
      (Fw.emit (bundlePiece env fw (bk.shows shown) (members.map (SliceMember.shows shown)))) := by
  rw [Mem.flushBundle, bundlePiece, Fw.emit_bind]
  refine agrees_bind (agrees_flushing_nextSeq _) (fun s st hflush => hflush) ?_
  rintro ⟨hashKey, seqNum⟩ s st hflush
  dsimp only
  rw [hflush.bucket hbk, hflush.members hbk hmembers]
  cases env.encodeBundle (bundleOf fw (bk.shows shown)
      (members.map (SliceMember.shows shown)) hashKey seqNum) with
  | none =>
      rw [sendEncoded, Fw.emit_pure]
      exact ⟨rfl, hflush⟩
  | some bytes =>
      obtain ⟨hrep, hcoal, hshown⟩ := hflush
      obtain ⟨hresult, hstates⟩ := agrees_enqueue rfl (fw.addrFor bk.group) bk.group "" true
        _ st (hrep.alloc_lying bytes)
      exact ⟨hresult, hstates, hcoal, hshown⟩

theorem agrees_flushBundles {bk : SliceBucket} (hbk : bk ∈ coal.buckets)
    {bundles : List (List SliceMember)}
    (hbundles : ∀ members ∈ bundles, ∀ member ∈ members, member ∈ bk.members) :
    Agrees (Flushing fw opts slots idle coal shown) (Flushing fw opts slots idle coal shown)
      (Mem.flushBundles env fw opts bk bundles)
      (Fw.emit (ShardProxy.flushBundles env fw (bk.shows shown)
        (bundles.map (List.map (SliceMember.shows shown))))) := by
  induction bundles with
  | nil =>
      intro s st hflush
      rw [List.map_nil, ShardProxy.flushBundles, Fw.emit_pure]
      exact ⟨rfl, hflush⟩
  | cons members rest ih =>
      have hloop : ShardProxy.flushBundles env fw (bk.shows shown)
          ((members :: rest).map (List.map (SliceMember.shows shown))) =
          bundlePiece env fw (bk.shows shown) (members.map (SliceMember.shows shown)) >>=
            fun _ => ShardProxy.flushBundles env fw (bk.shows shown)
              (rest.map (List.map (SliceMember.shows shown))) := by
        rfl
      rw [hloop, Fw.emit_bind, Mem.flushBundles]
      refine agrees_bind (agrees_flushBundle hbk (hbundles members List.mem_cons_self))
        (fun s st hflush => hflush) fun _ => ih ?_
      exact fun other hother => hbundles other (List.mem_cons_of_mem _ hother)

theorem agrees_flushBuckets (maxMembers : Nat) {buckets : List SliceBucket}
    (hbuckets : ∀ bk ∈ buckets, bk ∈ coal.buckets)
    (hinside : ∀ bk ∈ buckets, ∀ member ∈ bk.members, member.tx.Inside shown) :
    Agrees (Flushing fw opts slots idle coal shown) (Flushing fw opts slots idle coal shown)
      (Mem.flushBuckets env fw opts maxMembers buckets)
      (Fw.emit (ShardProxy.flushBuckets env fw maxMembers
        (buckets.map (SliceBucket.shows shown)))) := by
  induction buckets with
  | nil =>
      intro s st hflush
      rw [List.map_nil, ShardProxy.flushBuckets, Fw.emit_pure]
      exact ⟨rfl, hflush⟩
  | cons bk rest ih =>
      have hpack := packSlices_shows (env.memberOverhead fw.coalesceCarryTxid) maxMembers
        fw.bundleBudget bk.members.length (hinside bk List.mem_cons_self)
      have hshown : (bk.shows shown).members = bk.members.map (SliceMember.shows shown) := rfl
      rw [List.map_cons, ShardProxy.flushBuckets, hshown, List.length_map, hpack, Fw.emit_bind,
        Mem.flushBuckets]
      refine agrees_bind (agrees_flushBundles (hbuckets bk List.mem_cons_self)
        (packSlices_subset _ _ _ _)) (fun s st hflush => hflush) fun _ => ih ?_ ?_
      · exact fun other hother => hbuckets other (List.mem_cons_of_mem _ hother)
      · exact fun other hother => hinside other (List.mem_cons_of_mem _ hother)

theorem Represents.resetCoal {s : MemState} {st : FwState}
    (hrep : Represents fw opts slots idle s st) :
    Represents fw opts slots idle (Mem.resetCoal s).2
        { st with coal := st.coal.map CoalBuffer.reset } ∧
      (Mem.resetCoal s).2.members = [] := by
  have hs := hrep.sound
  have hmembers : (Mem.resetCoal s).2.members = [] := by
    rw [MemState.members, Mem.resetCoal]
    cases hcoal : s.coal <;> rfl
  refine ⟨⟨⟨hs.holds, hs.distinct, hs.made, hs.apart, hs.queued, ?_, hs.pool⟩, hrep.shared,
    hrep.queue, ?_, hrep.teed, hrep.mirrored⟩, hmembers⟩
  · intro member hmember
    rw [hmembers] at hmember
    cases hmember
  · change st.coal.map CoalBuffer.reset = (s.coal.map SliceCoal.reset).map _
    rw [hrep.coal, Option.map_map, Option.map_map]
    rfl

/-- `FlushCoalesced` queues the bundles the forwarder queues, and nothing waits after it. -/
theorem agrees_flushCoalesced (env : Env) :
    Agrees (Represents fw opts slots idle)
      (fun s st => Represents fw opts slots idle s st ∧ s.members = [])
      (Mem.flushCoalesced env fw opts) (flushCoalescedFw env fw) := by
  intro s st hrep
  cases hcoal : s.coal with
  | none =>
      have hnone : st.coal = none := by rw [hrep.coal, hcoal, Option.map_none]
      rw [Mem.flushCoalesced, hcoal, flushCoalescedFw, hnone]
      exact ⟨rfl, hrep, by rw [MemState.members, hcoal]⟩
  | some coal =>
      have hsome : st.coal = some (coal.shows s.heap) := by rw [hrep.coal, hcoal, Option.map_some]
      have hinside : ∀ bk ∈ coal.buckets, ∀ member ∈ bk.members, member.tx.Inside s.heap := by
        intro bk hbk member hmember
        refine (hrep.sound.waiting member ?_).1
        rw [MemState.members, hcoal]
        exact List.mem_flatMap.mpr ⟨bk, hbk, hmember⟩
      have hbuckets : Agrees (Flushing fw opts slots idle coal s.heap)
          (Flushing fw opts slots idle coal s.heap)
          (Mem.flushBuckets env fw opts coal.maxMembers coal.buckets)
          (Fw.emit (ShardProxy.flushCoalesced env fw (coal.shows s.heap))) :=
        agrees_flushBuckets coal.maxMembers (fun bk hbk => hbk) hinside
      obtain ⟨hresult, hflushed, _, hkept⟩ := hbuckets s st ⟨hrep, hcoal, hsome⟩
      rw [Mem.flushCoalesced, hcoal]
      dsimp only
      rw [Comp.bind_of_ok (Prod.ext hresult rfl), flushCoalescedFw, hsome]
      have hreset := hflushed.resetCoal
      rw [hkept] at hreset
      exact ⟨rfl, hreset⟩

/-- Bundling and flushing put out what the forwarder queued; nothing is queued after it and
nothing waits. -/
theorem Represents.flushAll (env : Env) {s : MemState} {st : FwState}
    (hrep : Represents fw opts slots idle s st) :
    (Mem.flush (Mem.flushCoalesced env fw opts s).2).1 =
        written opts (flushCoalescedFw env fw st).2.queue ∧
      Represents fw opts slots idle (Mem.flush (Mem.flushCoalesced env fw opts s).2).2
        { (flushCoalescedFw env fw st).2 with queue := [] } ∧
      (Mem.flush (Mem.flushCoalesced env fw opts s).2).2.queue = [] ∧
      (Mem.flush (Mem.flushCoalesced env fw opts s).2).2.members = [] := by
  obtain ⟨_, hbundled, hmembers⟩ := agrees_flushCoalesced env s st hrep
  obtain ⟨hshown, hflushed⟩ := hbundled.flush
  exact ⟨hshown, hflushed, rfl, hmembers⟩

end Flushing

end Mem

end ShardProxy
