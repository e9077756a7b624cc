/-
Who owns a buffer.  A buffer of a lane is idle, or it is in the pool, or slices of the
queue or of the coalescing buffer show it.  A state of the forwarder is represented in
memory when every slice shows the bytes the forwarder has, and no buffer that is idle or
free to be handed out is shown by a slice: then changing an idle buffer, or handing one
out, changes nothing that was queued.
-/
import ShardProxy.MemoryLane

namespace ShardProxy

open ByteField Dispenser SliceHeap Stateful

def MemState.members (s : MemState) : List SliceMember :=
  match s.coal with
  | none => []
  | some coal => coal.buckets.flatMap SliceBucket.members

namespace Mem

/-- Buffers in order: `idle` ones hold what they should, they and those of the pool are
distinct, the `slots` stay out of the pool, and slices show only buffers that are neither
idle nor free. -/
structure Sound (fw : Forwarder) (slots : List Nat) (idle : List (Nat × Bytes)) (s : MemState) :
    Prop where
  holds : ∀ entry ∈ idle, s.heap.buffer entry.1 = entry.2
  distinct : (idle.map Prod.fst ++ (s.free ++ s.pooled)).Nodup
  made : ∀ buf ∈ idle.map Prod.fst ++ (s.free ++ s.pooled), buf < s.heap.next
  apart : ∀ buf ∈ slots, buf < s.heap.next ∧ buf ∉ s.free ++ s.pooled
  queued : ∀ req ∈ s.queue, req.raw.buf < s.heap.next ∧ req.raw.buf ∉ s.free ∧
    req.raw.buf ∉ idle.map Prod.fst
  waiting : ∀ member ∈ s.members, member.tx.Inside s.heap ∧ member.tx.buf < s.heap.next ∧
    member.tx.buf ∉ s.free ++ s.pooled ∧ member.tx.buf ∉ idle.map Prod.fst
  pool : ∀ buf ∈ s.free ++ s.pooled, (s.heap.buffer buf).length = poolSize fw

/-- What the tee and the mirror should have copied of a queue. -/
def copies (wanted : Bool) (kind : EnqueueReq → Bool) (queue : List EnqueueReq) : List Bytes :=
  if wanted then (queue.filter kind).map EnqueueReq.raw else []

/-- What a flush of a queue should put out. -/
def written (opts : EgressOpts) (queue : List EnqueueReq) : Written where
  queue := queue
  teed := copies opts.tee (fun req => req.teeable) queue
  mirrored := copies opts.mirror (fun req => req.ctrlLabel = "") queue

/-- A state of the forwarder as it is represented in memory. -/
structure Represents (fw : Forwarder) (opts : EgressOpts) (slots : List Nat)
    (idle : List (Nat × Bytes)) (s : MemState) (st : FwState) : Prop where
  sound : Sound fw slots idle s
  shared : st.shared = s.shared
  queue : st.queue = s.queue.map (SliceReq.shows s.heap)
  coal : st.coal = s.coal.map (SliceCoal.shows s.heap)
  teed : s.teed = copies opts.tee (fun req => req.teeable) st.queue
  mirrored : s.mirrored = copies opts.mirror (fun req => req.ctrlLabel = "") st.queue

/-- A computation in memory ends like one of the forwarder, from related states and in
related states. -/
def Agrees {A : Type} (pre post : MemState → FwState → Prop) (x : Mem A) (y : Fw A) : Prop :=
  Refines pre post x y

section Shows

variable {heap heap' : Heap UInt8}

theorem members_shows_congr {members : List SliceMember}
    (hsame : ∀ member ∈ members, heap'.buffer member.tx.buf = heap.buffer member.tx.buf) :
    members.map (SliceMember.shows heap') = members.map (SliceMember.shows heap) := by
  apply List.map_congr_left
  intro member hmember
  rw [SliceMember.shows, SliceMember.shows, Heap.read_congr (hsame member hmember)]

/-- A heap that agrees on the buffers the members are in shows the same buffer. -/
theorem coal_shows_congr {coal : SliceCoal}
    (hsame : ∀ member ∈ coal.buckets.flatMap SliceBucket.members,
      heap'.buffer member.tx.buf = heap.buffer member.tx.buf) :
    coal.shows heap' = coal.shows heap := by
  rw [SliceCoal.shows, SliceCoal.shows]
  congr 1
  apply List.map_congr_left
  intro bk hbk
  rw [SliceBucket.shows, SliceBucket.shows, members_shows_congr]
  intro member hmember
  exact hsame member (List.mem_flatMap.mpr ⟨bk, hbk, hmember⟩)

theorem queue_shows_congr {queue : List SliceReq}
    (hsame : ∀ req ∈ queue, heap'.buffer req.raw.buf = heap.buffer req.raw.buf) :
    queue.map (SliceReq.shows heap') = queue.map (SliceReq.shows heap) := by
  apply List.map_congr_left
  intro req hreq
  rw [SliceReq.shows, SliceReq.shows, Heap.read_congr (hsame req hreq)]

theorem addSlice_shows (flow : ChainKey) (member : SliceMember) (buckets : List SliceBucket) :
    (addSlice flow member buckets).map (SliceBucket.shows heap) =
      addMember flow (member.shows heap) (buckets.map (SliceBucket.shows heap)) := by
  induction buckets with
  | nil => rfl
  | cons bk rest ih =>
      by_cases hflow : bk.group = flow.grp ∧ bk.ip = flow.ip ∧ bk.subtree = flow.sub
      · simp [addSlice, addMember, SliceBucket.shows, hflow]
      · simp only [addSlice, addMember, SliceBucket.shows, hflow, ↓reduceIte, List.map_cons]
        exact congrArg (List.cons _) ih

theorem SliceCoal.add_shows (coal : SliceCoal) (flow : ChainKey) (member : SliceMember) :
    (coal.add flow member).shows heap = (coal.shows heap).add flow (member.shows heap) := by
  simp only [SliceCoal.shows, SliceCoal.add, CoalBuffer.add, addSlice_shows]

theorem newSliceCoal_shows (maxMembers : Int) :
    (newSliceCoal maxMembers).shows heap = newCoalBuffer maxMembers := by
  simp only [newSliceCoal, newCoalBuffer]
  split <;> rfl

theorem mem_addSlice {flow : ChainKey} {member found : SliceMember} {buckets : List SliceBucket}
    (hfound : found ∈ (addSlice flow member buckets).flatMap SliceBucket.members) :
    found = member ∨ found ∈ buckets.flatMap SliceBucket.members := by
  induction buckets with
  | nil =>
      left
      simpa [addSlice] using hfound
  | cons bk rest ih =>
      rw [addSlice] at hfound
      split at hfound
      · simp only [List.flatMap_cons, List.mem_append, List.mem_singleton] at hfound ⊢
        tauto
      · simp only [List.flatMap_cons, List.mem_append] at hfound ⊢
        rcases hfound with hhead | hrest
        · exact Or.inr (Or.inl hhead)
        · exact (ih hrest).imp_right Or.inr

end Shows

section Changes

variable {fw : Forwarder} {opts : EgressOpts} {slots : List Nat} {idle rest : List (Nat × Bytes)}
  {s : MemState} {st : FwState} {buf : Nat} {contents : Bytes}

/-- A buffer that was idle, and now is the caller's to place. -/
structure Placing (slots : List Nat) (idle : List (Nat × Bytes)) (s : MemState) (buf : Nat)
    (contents : Bytes) : Prop where
  holds : s.heap.buffer buf = contents
  made : buf < s.heap.next
  pool : buf ∉ s.free ++ s.pooled
  idle : buf ∉ idle.map Prod.fst
  waiting : ∀ member ∈ s.members, member.tx.buf ≠ buf

/-- Fewer buffers are known to be idle. -/
theorem Sound.forget (hs : Sound fw slots ((buf, contents) :: rest) s) :
    Sound fw slots rest s where
  holds entry hentry := hs.holds entry (List.mem_cons_of_mem _ hentry)
  distinct := (List.nodup_cons.mp hs.distinct).2
  made other hother := hs.made other (List.mem_cons_of_mem _ hother)
  apart := hs.apart
  queued req hreq :=
    ⟨(hs.queued req hreq).1, (hs.queued req hreq).2.1,
      fun hidle => (hs.queued req hreq).2.2 (List.mem_cons_of_mem _ hidle)⟩
  waiting member hmember :=
    ⟨(hs.waiting member hmember).1, (hs.waiting member hmember).2.1,
      (hs.waiting member hmember).2.2.1,
      fun hidle => (hs.waiting member hmember).2.2.2 (List.mem_cons_of_mem _ hidle)⟩
  pool := hs.pool

theorem Sound.placing (hs : Sound fw slots ((buf, contents) :: rest) s) :
    Placing slots rest s buf contents := by
  have hnot := (List.nodup_cons.mp hs.distinct).1
  refine ⟨hs.holds _ List.mem_cons_self, hs.made _ List.mem_cons_self, ?_, ?_, ?_⟩
  · exact fun hpool => hnot (List.mem_append_right _ hpool)
  · exact fun hidle => hnot (List.mem_append_left _ hidle)
  · intro member hmember hsame
    exact (hs.waiting member hmember).2.2.2 (hsame ▸ List.mem_cons_self)

theorem Represents.forget (hrep : Represents fw opts slots ((buf, contents) :: rest) s st) :
    Represents fw opts slots rest s st :=
  { hrep with sound := hrep.sound.forget }

/-- A heap that agrees on the buffers slices show leaves the forwarder as it is. -/
theorem Represents.with_heap (hrep : Represents fw opts slots idle s st) {heap : Heap UInt8}
    (hqueue : ∀ req ∈ s.queue, heap.buffer req.raw.buf = s.heap.buffer req.raw.buf)
    (hwaiting : ∀ member ∈ s.members, heap.buffer member.tx.buf = s.heap.buffer member.tx.buf)
    (hsound : Sound fw slots rest { s with heap := heap }) :
    Represents fw opts slots rest { s with heap := heap } st where
  sound := hsound
  shared := hrep.shared
  queue := hrep.queue.trans (queue_shows_congr hqueue).symm
  coal := by
    rw [hrep.coal]
    cases hcoal : s.coal with
    | none => rfl
    | some coal =>
        have hmembers : s.members = coal.buckets.flatMap SliceBucket.members := by
          rw [MemState.members, hcoal]
        exact congrArg some (coal_shows_congr (hmembers ▸ hwaiting)).symm
  teed := hrep.teed
  mirrored := hrep.mirrored

theorem Represents.store (hrep : Represents fw opts slots ((buf, contents) :: rest) s st)
    (contents' : Bytes) :
    Represents fw opts slots ((buf, contents') :: rest)
      { s with heap := s.heap.store buf contents' } st := by
  have hs := hrep.sound
  have hplacing := hs.placing
  have hother : ∀ {other : Nat}, other ≠ buf →
      (s.heap.store buf contents').buffer other = s.heap.buffer other :=
    fun hne => Heap.store_buffer_of_ne hne
  have hqueue : ∀ req ∈ s.queue, req.raw.buf ≠ buf := fun req hreq hsame =>
    (hs.queued req hreq).2.2 (hsame ▸ List.mem_cons_self)
  refine hrep.with_heap (fun req hreq => hother (hqueue req hreq))
    (fun member hmember => hother (hplacing.waiting member hmember)) ?_
  refine ⟨?_, hs.distinct, hs.made, hs.apart, hs.queued, ?_, ?_⟩
  · intro entry hentry
    rcases List.mem_cons.mp hentry with rfl | hrest
    · exact Heap.store_buffer_self
    · rw [hother]
      · exact hs.holds entry (List.mem_cons_of_mem _ hrest)
      · rintro rfl
        exact hplacing.idle (List.mem_map_of_mem hrest)
  · intro member hmember
    obtain ⟨hinside, hmade, hpool, hidle⟩ := hs.waiting member hmember
    exact ⟨hinside.congr (hother (hplacing.waiting member hmember)), hmade, hpool, hidle⟩
  · intro other hpool
    rw [hother]
    · exact hs.pool other hpool
    · rintro rfl
      exact hplacing.pool hpool

theorem Represents.alloc (hrep : Represents fw opts slots idle s st) (contents : Bytes) :
    Represents fw opts slots ((s.heap.next, contents) :: idle)
      { s with heap := s.heap.alloc contents } st := by
  have hs := hrep.sound
  have hold : ∀ {other : Nat}, other < s.heap.next →
      (s.heap.alloc contents).buffer other = s.heap.buffer other :=
    fun hlt => Heap.alloc_buffer_of_lt hlt
  refine hrep.with_heap (fun req hreq => hold (hs.queued req hreq).1)
    (fun member hmember => hold (hs.waiting member hmember).2.1) ?_
  refine ⟨?_, ?_, ?_, ?_, ?_, ?_, ?_⟩
  · intro entry hentry
    rcases List.mem_cons.mp hentry with rfl | hrest
    · exact Heap.alloc_buffer_self
    · rw [hold]
      · exact hs.holds entry hrest
      · exact hs.made entry.1 (List.mem_append_left _ (List.mem_map_of_mem hrest))
  · refine List.nodup_cons.mpr ⟨?_, hs.distinct⟩
    intro hmem
    exact Nat.lt_irrefl _ (hs.made _ hmem)
  · intro other hother
    rcases List.mem_cons.mp hother with rfl | hrest
    · exact Nat.lt_succ_self _
    · exact Nat.lt_succ_of_lt (hs.made other hrest)
  · intro other hother
    exact ⟨Nat.lt_succ_of_lt (hs.apart other hother).1, (hs.apart other hother).2⟩
  · intro req hreq
    obtain ⟨hmade, hfree, hidle⟩ := hs.queued req hreq
    refine ⟨Nat.lt_succ_of_lt hmade, hfree, ?_⟩
    rw [List.map_cons, List.mem_cons, not_or]
    exact ⟨Nat.ne_of_lt hmade, hidle⟩
  · intro member hmember
    obtain ⟨hinside, hmade, hpool, hidle⟩ := hs.waiting member hmember
    refine ⟨hinside.congr (hold hmade), Nat.lt_succ_of_lt hmade, hpool, ?_⟩
    rw [List.map_cons, List.mem_cons, not_or]
    exact ⟨Nat.ne_of_lt hmade, hidle⟩
  · intro other hpool
    rw [hold]
    · exact hs.pool other hpool
    · exact hs.made other (List.mem_append_right _ hpool)

theorem Represents.takeFree (hrep : Represents fw opts slots idle s st) {i : Nat}
    (hbuf : s.free[i]? = some buf) :
    (s.heap.buffer buf).length = poolSize fw ∧ buf ∉ slots ∧
      Represents fw opts slots ((buf, s.heap.buffer buf) :: idle)
        { s with free := s.free.eraseIdx i } st := by
  have hs := hrep.sound
  obtain ⟨hlt, hget⟩ := List.getElem?_eq_some_iff.mp hbuf
  have hfree : buf ∈ s.free := List.mem_of_getElem? hbuf
  have hperm : (buf :: s.free.eraseIdx i).Perm s.free := by
    rw [← hget]
    exact List.getElem_cons_eraseIdx_perm hlt
  have hpool : (buf :: (s.free.eraseIdx i ++ s.pooled)).Perm (s.free ++ s.pooled) :=
    hperm.append_right s.pooled
  have hall : (buf :: (idle.map Prod.fst ++ (s.free.eraseIdx i ++ s.pooled))).Perm
      (idle.map Prod.fst ++ (s.free ++ s.pooled)) :=
    List.perm_middle.symm.trans (hpool.append_left _)
  have hrest : ∀ other ∈ s.free.eraseIdx i ++ s.pooled, other ∈ s.free ++ s.pooled :=
    fun other hother => hpool.subset (List.mem_cons_of_mem _ hother)
  refine ⟨hs.pool buf (List.mem_append_left _ hfree),
    fun hslot => (hs.apart buf hslot).2 (List.mem_append_left _ hfree), ?_⟩
  refine ⟨⟨?_, hall.nodup_iff.mpr hs.distinct, ?_, ?_, ?_, ?_, ?_⟩, hrep.shared, hrep.queue,
    hrep.coal, hrep.teed, hrep.mirrored⟩
  · intro entry hentry
    rcases List.mem_cons.mp hentry with rfl | hold
    · rfl
    · exact hs.holds entry hold
  · intro other hother
    exact hs.made other (hall.subset hother)
  · intro other hother
    exact ⟨(hs.apart other hother).1, fun hmem => (hs.apart other hother).2 (hrest other hmem)⟩
  · intro req hreq
    obtain ⟨hmade, hnot, hidle⟩ := hs.queued req hreq
    refine ⟨hmade, fun hmem => hnot (List.mem_of_mem_eraseIdx hmem), ?_⟩
    rw [List.map_cons, List.mem_cons, not_or]
    exact ⟨fun hsame => hnot (hsame ▸ hfree), hidle⟩
  · intro member hmember
    obtain ⟨hinside, hmade, hnot, hidle⟩ := hs.waiting member hmember
    refine ⟨hinside, hmade, fun hmem => hnot (hrest _ hmem), ?_⟩
    rw [List.map_cons, List.mem_cons, not_or]
    exact ⟨fun hsame => hnot (hsame ▸ List.mem_append_left _ hfree), hidle⟩
  · exact fun other hother => hs.pool other (hrest other hother)

/-- The pool hands out a buffer nobody uses, of the right size. -/
theorem Represents.poolGet (hrep : Represents fw opts slots idle s st) :
    ∃ buf contents s', Mem.poolGet fw opts s = (.ok buf, s') ∧
      contents.length = poolSize fw ∧ buf ∉ slots ∧
      Represents fw opts slots ((buf, contents) :: idle) s' st := by
  have hcount : Represents fw opts slots idle { s with gets := s.gets + 1 } st :=
    ⟨⟨hrep.sound.holds, hrep.sound.distinct, hrep.sound.made, hrep.sound.apart,
      hrep.sound.queued, hrep.sound.waiting, hrep.sound.pool⟩, hrep.shared, hrep.queue,
      hrep.coal, hrep.teed, hrep.mirrored⟩
  have hnew : ∃ contents s', ((.ok s.heap.next, { s with
        gets := s.gets + 1
        heap := s.heap.alloc (List.replicate (poolSize fw) 0) }) :
          Except Drop Nat × MemState) = (.ok s.heap.next, s') ∧
      contents.length = poolSize fw ∧ s.heap.next ∉ slots ∧
      Represents fw opts slots ((s.heap.next, contents) :: idle) s' st := by
    refine ⟨_, _, rfl, List.length_replicate, ?_, hcount.alloc _⟩
    exact fun hslot => Nat.lt_irrefl _ (hrep.sound.apart _ hslot).1
  obtain ⟨contents, s', hs', hlength, hslot, hrep'⟩ := hnew
  rw [Mem.poolGet]
  dsimp only
  split
  · rename_i i _
    split
    · rename_i buf hbuf
      exact ⟨buf, _, _, rfl, (hcount.takeFree hbuf).1, (hcount.takeFree hbuf).2⟩
    · exact ⟨_, contents, s', hs', hlength, hslot, hrep'⟩
  · exact ⟨_, contents, s', hs', hlength, hslot, hrep'⟩

theorem Represents.poolPut (hrep : Represents fw opts slots ((buf, contents) :: rest) s st)
    (hslot : buf ∉ slots) (hlength : contents.length = poolSize fw) :
    Represents fw opts slots rest { s with free := buf :: s.free } st := by
  have hs := hrep.sound
  have hplacing := hs.placing
  have hperm : (rest.map Prod.fst ++ (buf :: s.free ++ s.pooled)).Perm
      (buf :: (rest.map Prod.fst ++ (s.free ++ s.pooled))) := List.perm_middle
  have hpool : ∀ other, other ∈ buf :: s.free ++ s.pooled ↔
      other = buf ∨ other ∈ s.free ++ s.pooled := fun other => List.mem_cons
  refine ⟨⟨hs.forget.holds, hperm.nodup_iff.mpr hs.distinct, ?_, ?_, ?_, ?_, ?_⟩, hrep.shared,
    hrep.queue, hrep.coal, hrep.teed, hrep.mirrored⟩
  · intro other hother
    exact hs.made other (hperm.subset hother)
  · intro other hother
    refine ⟨(hs.apart other hother).1, fun hmem => ?_⟩
    rcases (hpool other).mp hmem with rfl | hold
    · exact hslot hother
    · exact (hs.apart other hother).2 hold
  · intro req hreq
    obtain ⟨hmade, hfree, hidle⟩ := hs.queued req hreq
    refine ⟨hmade, ?_, (hs.forget.queued req hreq).2.2⟩
    rw [List.mem_cons, not_or]
    exact ⟨fun hsame => hidle (hsame ▸ List.mem_cons_self), hfree⟩
  · intro member hmember
    obtain ⟨hinside, hmade, hnot, _⟩ := hs.waiting member hmember
    refine ⟨hinside, hmade, fun hmem => ?_, (hs.forget.waiting member hmember).2.2.2⟩
    rcases (hpool _).mp hmem with hsame | hold
    · exact hplacing.waiting member hmember hsame
    · exact hnot hold
  · intro other hmem
    rcases (hpool other).mp hmem with rfl | hold
    · rw [show s.heap.buffer other = contents from hplacing.holds]
      exact hlength
    · exact hs.pool other hold

theorem copies_concat (wanted : Bool) (kind : EnqueueReq → Bool) (queue : List EnqueueReq)
    (req : EnqueueReq) :
    copies wanted kind (queue ++ [req]) =
      if wanted ∧ kind req then copies wanted kind queue ++ [req.raw]
      else copies wanted kind queue := by
  cases wanted <;> cases hkind : kind req <;> simp [copies, hkind]

/-- Queue a slice of a buffer that is neither idle nor free.  If it is one of the pool, it
stays out of the pool until the flush. -/
theorem Represents.enqueue (hrep : Represents fw opts slots idle s st) (req : SliceReq)
    (hmade : req.raw.buf < s.heap.next) (hfree : req.raw.buf ∉ s.free)
    (hidle : req.raw.buf ∉ idle.map Prod.fst)
    (hpooled : ∀ buf ∈ req.pooled.toList, buf ∉ slots ∧
      ∃ contents, contents.length = poolSize fw ∧ Placing slots idle s buf contents) :
    Represents fw opts slots idle (Mem.enqueue opts req s).2
      { st with queue := st.queue ++ [req.shows s.heap] } := by
  have hs := hrep.sound
  have hpool : ∀ other, other ∈ s.free ++ (s.pooled ++ req.pooled.toList) →
      other ∈ s.free ++ s.pooled ∨ other ∈ req.pooled.toList := by
    intro other hother
    rwa [← List.append_assoc, List.mem_append] at hother
  have hall : idle.map Prod.fst ++ (s.free ++ (s.pooled ++ req.pooled.toList)) =
      (idle.map Prod.fst ++ (s.free ++ s.pooled)) ++ req.pooled.toList := by
    simp only [List.append_assoc]
  refine ⟨⟨hs.holds, ?_, ?_, ?_, ?_, ?_, ?_⟩, hrep.shared, ?_, hrep.coal, ?_, ?_⟩
  · change (idle.map Prod.fst ++ (s.free ++ (s.pooled ++ req.pooled.toList))).Nodup
    rw [hall, List.nodup_append]
    refine ⟨hs.distinct, by cases req.pooled <;> simp, ?_⟩
    rintro other hother buf hbuf rfl
    obtain ⟨_, contents, _, hplacing⟩ := hpooled other hbuf
    rcases List.mem_append.mp hother with hmem | hmem
    · exact hplacing.idle hmem
    · exact hplacing.pool hmem
  · intro other hother
    rw [show (Mem.enqueue opts req s).2.pooled = s.pooled ++ req.pooled.toList from rfl,
      show (Mem.enqueue opts req s).2.free = s.free from rfl, hall] at hother
    rcases List.mem_append.mp hother with hold | hnew
    · exact hs.made other hold
    · obtain ⟨_, contents, _, hplacing⟩ := hpooled other hnew
      exact hplacing.made
  · intro other hother
    refine ⟨(hs.apart other hother).1, fun hmem => ?_⟩
    rcases hpool other hmem with hold | hnew
    · exact (hs.apart other hother).2 hold
    · exact (hpooled other hnew).1 hother
  · intro queued hqueued
    rcases List.mem_append.mp hqueued with hold | hnew
    · exact hs.queued queued hold
    · obtain rfl := List.mem_singleton.mp hnew
      exact ⟨hmade, hfree, hidle⟩
  · intro member hmember
    obtain ⟨hinside, hmade, hnot, hidle⟩ := hs.waiting member hmember
    refine ⟨hinside, hmade, fun hmem => ?_, hidle⟩
    rcases hpool _ hmem with hold | hnew
    · exact hnot hold
    · obtain ⟨_, contents, _, hplacing⟩ := hpooled _ hnew
      exact hplacing.waiting member hmember rfl
  · intro other hmem
    rcases hpool other hmem with hold | hnew
    · exact hs.pool other hold
    · obtain ⟨_, contents, hlength, hplacing⟩ := hpooled other hnew
      rw [show (Mem.enqueue opts req s).2.heap.buffer other = contents from hplacing.holds]
      exact hlength
  · simp only [Mem.enqueue, List.map_append, List.map_singleton, hrep.queue]
  · rw [copies_concat, ← hrep.teed]
    rfl
  · rw [copies_concat, ← hrep.mirrored]
    by_cases hlabel : req.ctrlLabel = "" <;> simp [Mem.enqueue, SliceReq.shows, hlabel]

theorem Represents.enqueue_idle (hrep : Represents fw opts slots ((buf, contents) :: rest) s st)
    (req : SliceReq) (hbuf : req.raw.buf = buf) (hpooled : req.pooled = none) :
    Represents fw opts slots rest (Mem.enqueue opts req s).2
      { st with queue := st.queue ++ [req.shows s.heap] } := by
  have hplacing := hrep.sound.placing
  subst hbuf
  refine hrep.forget.enqueue req hplacing.made ?_ hplacing.idle ?_
  · exact fun hmem => hplacing.pool (List.mem_append_left _ hmem)
  · intro other hother
    rw [hpooled] at hother
    cases hother

theorem Represents.enqueue_pooled
    (hrep : Represents fw opts slots ((buf, contents) :: rest) s st) (req : SliceReq)
    (hbuf : req.raw.buf = buf) (hpooled : req.pooled = some buf) (hslot : buf ∉ slots)
    (hlength : contents.length = poolSize fw) :
    Represents fw opts slots rest (Mem.enqueue opts req s).2
      { st with queue := st.queue ++ [req.shows s.heap] } := by
  have hplacing := hrep.sound.placing
  subst hbuf
  refine hrep.forget.enqueue req hplacing.made ?_ hplacing.idle ?_
  · exact fun hmem => hplacing.pool (List.mem_append_left _ hmem)
  · intro other hother
    rw [hpooled, Option.mem_toList] at hother
    obtain rfl := Option.some.inj hother
    exact ⟨hslot, contents, hlength, hplacing⟩

theorem mem_members_add {s : MemState} {flow : ChainKey} {member found : SliceMember}
    (hfound : found ∈
      MemState.members { s with coal := s.coal.map fun coal => coal.add flow member }) :
    found = member ∨ found ∈ s.members := by
  cases hcoal : s.coal with
  | none =>
      rw [MemState.members, hcoal] at hfound
      cases hfound
  | some coal =>
      rw [MemState.members, hcoal] at hfound
      rw [MemState.members, hcoal]
      exact mem_addSlice hfound

/-- Keep a slice of a buffer that was idle in the coalescing buffer. -/
theorem Represents.bufferMember
    (hrep : Represents fw opts slots ((buf, contents) :: rest) s st) (flow : ChainKey)
    (member : SliceMember) (hbuf : member.tx.buf = buf) (hinside : member.tx.Inside s.heap) :
    Represents fw opts slots rest (Mem.bufferMember flow member s).2
      { st with coal := st.coal.map fun coal => coal.add flow (member.shows s.heap) } := by
  have hs := hrep.sound.forget
  have hplacing := hrep.sound.placing
  refine ⟨⟨hs.holds, hs.distinct, hs.made, hs.apart, hs.queued, ?_, hs.pool⟩, hrep.shared,
    hrep.queue, ?_, hrep.teed, hrep.mirrored⟩
  · intro found hfound
    rcases mem_members_add hfound with rfl | hold
    · rw [hbuf]
      exact ⟨hinside, hplacing.made, hplacing.pool, hplacing.idle⟩
    · exact hs.waiting found hold
  · simp only [Mem.bufferMember, hrep.coal, Option.map_map]
    congr 1
    funext coal
    exact (SliceCoal.add_shows coal flow member).symm

theorem Represents.others (hrep : Represents fw opts slots idle s st)
    (others : Shared → Shared) :
    Represents fw opts slots idle { s with shared := others s.shared }
      (st.withShared (others st.shared)) := by
  rw [hrep.shared]
  exact ⟨⟨hrep.sound.holds, hrep.sound.distinct, hrep.sound.made, hrep.sound.apart,
    hrep.sound.queued, hrep.sound.waiting, hrep.sound.pool⟩, rfl, hrep.queue, hrep.coal,
    hrep.teed, hrep.mirrored⟩

theorem written_nil (opts : EgressOpts) : written opts [] = ⟨[], [], []⟩ := by
  rcases opts with ⟨_ | _, _ | _, _⟩ <;> rfl

theorem members_start (heap : Heap UInt8) (shared : Shared) (armed : Option Int) :
    (MemState.start heap shared armed).members = [] := by
  cases armed <;> rfl

/-- A new egress, with buffers that are all idle. -/
theorem represents_start {heap : Heap UInt8} {armed : Option Int}
    (hholds : ∀ entry ∈ idle, heap.buffer entry.1 = entry.2)
    (hdistinct : (idle.map Prod.fst).Nodup) (hmade : ∀ buf ∈ idle.map Prod.fst, buf < heap.next)
    (hslots : ∀ buf ∈ slots, buf < heap.next) (hqueue : st.queue = [])
    (hcoal : st.coal = armed.map newCoalBuffer) :
    Represents fw opts slots idle (MemState.start heap st.shared armed) st where
  sound :=
    { holds := hholds
      distinct := by
        rw [MemState.start, List.append_nil, List.append_nil]
        exact hdistinct
      made := by
        rw [MemState.start, List.append_nil, List.append_nil]
        exact hmade
      apart := fun buf hbuf => ⟨hslots buf hbuf, List.not_mem_nil⟩
      queued := fun req hreq => by cases hreq
      waiting := fun member hmember => by
        rw [members_start] at hmember
        cases hmember
      pool := fun buf hbuf => by cases hbuf }
  shared := rfl
  queue := hqueue
  coal := by
    rw [hcoal, MemState.start, Option.map_map]
    congr 1
    funext maxMembers
    exact (newSliceCoal_shows maxMembers).symm
  teed := by
    rw [hqueue]
    exact (congrArg Written.teed (written_nil opts)).symm
  mirrored := by
    rw [hqueue]
    exact (congrArg Written.mirrored (written_nil opts)).symm

/-- A flush shows what the forwarder queued, with the copies, and leaves nothing queued;
the buffers of the pool are free again. -/
theorem Represents.flush (hrep : Represents fw opts slots idle s st) :
    (Mem.flush s).1 = written opts st.queue ∧
      Represents fw opts slots idle (Mem.flush s).2 { st with queue := [] } := by
  have hs := hrep.sound
  have hperm : (s.pooled ++ s.free ++ []).Perm (s.free ++ s.pooled) := by
    rw [List.append_nil]
    exact List.perm_append_comm
  have hall := hperm.append_left (idle.map Prod.fst)
  refine ⟨?_, ⟨⟨hs.holds, hall.nodup_iff.mpr hs.distinct, ?_, ?_, ?_, ?_, ?_⟩, hrep.shared, rfl,
    hrep.coal, ?_, ?_⟩⟩
  · rw [Mem.flush, written, ← hrep.queue, ← hrep.teed, ← hrep.mirrored]
  · exact fun other hother => hs.made other (hall.subset hother)
  · exact fun other hother => ⟨(hs.apart other hother).1,
      fun hmem => (hs.apart other hother).2 (hperm.subset hmem)⟩
  · intro req hreq
    cases hreq
  · intro member hmember
    obtain ⟨hinside, hmade, hnot, hidle⟩ := hs.waiting member hmember
    exact ⟨hinside, hmade, fun hmem => hnot (hperm.subset hmem), hidle⟩
  · exact fun other hother => hs.pool other (hperm.subset hother)
  · exact (congrArg Written.teed (written_nil opts)).symm
  · exact (congrArg Written.mirrored (written_nil opts)).symm

/-- With nothing queued and nothing waiting, a buffer outside the pool is idle. -/
theorem Represents.reclaim (hrep : Represents fw opts slots idle s st) (hqueue : s.queue = [])
    (hmembers : s.members = []) (hslot : buf ∈ slots) (hidle : buf ∉ idle.map Prod.fst) :
    Represents fw opts slots ((buf, s.heap.buffer buf) :: idle) s st := by
  have hs := hrep.sound
  obtain ⟨hmade, hpool⟩ := hs.apart buf hslot
  refine { hrep with sound := ⟨?_, ?_, ?_, hs.apart, ?_, ?_, hs.pool⟩ }
  · intro entry hentry
    rcases List.mem_cons.mp hentry with rfl | hold
    · rfl
    · exact hs.holds entry hold
  · refine List.nodup_cons.mpr ⟨?_, hs.distinct⟩
    intro hmem
    exact (List.mem_append.mp hmem).elim hidle hpool
  · intro other hother
    rcases List.mem_cons.mp hother with rfl | hold
    · exact hmade
    · exact hs.made other hold
  · intro req hreq
    rw [hqueue] at hreq
    cases hreq
  · intro member hmember
    rw [hmembers] at hmember
    cases hmember

end Changes

section Sharing

variable {fw : Forwarder} {opts : EgressOpts} {slots : List Nat} {idle : List (Nat × Bytes)}
  {A : Type}

/-- A step that does not look at the egress of a lane and leaves it as it is. -/
def SharesOnly (x : Fw A) : Prop :=
  ∀ st queue coal, x { st with queue := queue, coal := coal } =
    ((x st).1, { (x st).2 with queue := queue, coal := coal })

theorem SharesOnly.egress {x : Fw A} (hx : SharesOnly x) (st : FwState) :
    (x st).2.queue = st.queue ∧ (x st).2.coal = st.coal := by
  have hsame := congrArg Prod.snd (hx st st.queue st.coal)
  have hqueue := congrArg FwState.queue hsame
  have hcoal := congrArg FwState.coal hsame
  exact ⟨hqueue, hcoal⟩

theorem agrees_shares {x : Fw A} (hx : SharesOnly x) :
    Agrees (Represents fw opts slots idle) (Represents fw opts slots idle) (Mem.shares x) x := by
  intro s st hrep
  have hview : Mem.view s = { st with queue := [], coal := none } := by
    rw [Mem.view, ← hrep.shared]
    rfl
  have hran : x (Mem.view s) = ((x st).1, { (x st).2 with queue := [], coal := none }) := by
    rw [hview]
    exact hx st [] none
  obtain ⟨hqueue, hcoal⟩ := hx.egress st
  rw [Mem.shares, hran]
  refine ⟨rfl, ⟨⟨hrep.sound.holds, hrep.sound.distinct, hrep.sound.made, hrep.sound.apart,
    hrep.sound.queued, hrep.sound.waiting, hrep.sound.pool⟩, rfl, hqueue.trans hrep.queue,
    hcoal.trans hrep.coal, ?_, ?_⟩⟩
  · exact hqueue ▸ hrep.teed
  · exact hqueue ▸ hrep.mirrored

theorem sharesOnly_claimIngressIn (dedup : Option DedupRef) (id : Hash32) (frameType : String) :
    SharesOnly (claimIngressIn dedup id frameType) := by
  intro st queue coal
  cases dedup with
  | none => rfl
  | some ref =>
      simp only [claimIngressIn]
      split <;> rfl

theorem sharesOnly_claimBEEFIngress (fw : Forwarder) (key : Hash32) (frameType : String) :
    SharesOnly (claimBEEFIngress fw key frameType) := by
  rw [claimBEEFIngress]
  cases fw.beefDedup with
  | none => exact sharesOnly_claimIngressIn _ _ _
  | some ref => exact sharesOnly_claimIngressIn _ _ _

theorem sharesOnly_chargeBudget (env : Env) (src : Option NetAddr) (n : Nat) (now : Time) :
    SharesOnly (chargeBudget env src n now) := by
  intro st queue coal
  simp only [chargeBudget]
  rcases st.beefLimit.allow env src n now with ⟨_ | _ | _, limiter⟩ <;> rfl

theorem sharesOnly_nextSeq (env : Env) (flow : ChainKey) :
    SharesOnly (Fw.emit (ShardProxy.nextSeq env flow)) := by
  intro st queue coal
  simp only [Fw.emit, run_nextSeq, List.append_nil]

end Sharing

end Mem

end ShardProxy
