/-
Conservation in a retry tee.  A copy sits in one buffer from `append` on until it is
written or given up, a buffer is in one place at a time, and every copy appended is
written, counted as failed, or still on its way, in the order it came.
-/
import Mathlib.Data.List.Perm.Basic
import Mathlib.Data.List.Nodup
import ShardProxy.TeeChannel

namespace ShardProxy

open ByteField FairRun

/-- The buffers of a batch's copies. -/
def TeeBatch.buffers (b : TeeBatch) : List Nat :=
  b.msgs.map TeeMsg.buf

/-- The batches somebody has: the sender, the queue, `flush`, and the Egress. -/
def RetryTee.held (t : RetryTee) : List TeeBatch :=
  t.run.batch.toList ++ t.batches ++ t.flush.batch.toList ++ [⟨t.msgs, t.bufs, none⟩]

/-- All buffers that hold a copy. -/
def RetryTee.inUse (t : RetryTee) : List Nat :=
  t.held.flatMap TeeBatch.buffers

/-- The books of a tee.  No buffer is in two places, every one has been handed out, and
the pool gets back what came from it; what is written and what is on its way are an
ordered part of what was appended, and the counts add up. -/
structure RetryTee.Books (t : RetryTee) : Prop where
  owned : (t.inUse ++ t.bufPool).Nodup
  known : ∀ p ∈ t.inUse ++ t.bufPool, p < t.fresh
  pooled : ∀ b ∈ t.held, b.bufs.Sublist b.buffers
  order : (t.written ++ t.pending.map t.read).Sublist t.appended
  count : t.appended.length = t.written.length + t.failed + t.pending.length

section Custody

variable {t t' : RetryTee}

theorem RunPos.left_sublist (run : RunPos) :
    run.left.Sublist (run.batch.toList.flatMap TeeBatch.msgs) := by
  cases run with
  | holding b => simp [RunPos.left, RunPos.batch]
  | writing b off => simpa [RunPos.left, RunPos.batch] using List.drop_sublist off b.msgs
  | calling b off => simpa [RunPos.left, RunPos.batch] using List.drop_sublist off b.msgs
  | wrote b sent err => simpa [RunPos.left, RunPos.batch] using List.drop_sublist sent b.msgs
  | _ => exact List.nil_sublist _

theorem FlushPos.left_sublist (flush : FlushPos) :
    flush.left.Sublist (flush.batch.toList.flatMap TeeBatch.msgs) := by
  cases flush <;> simp [FlushPos.left, FlushPos.batch]

/-- What is on its way is in a buffer in use. -/
theorem RetryTee.pending_inUse (t : RetryTee) : (t.pending.map TeeMsg.buf).Sublist t.inUse := by
  have hmsgs : t.pending.Sublist (t.held.flatMap TeeBatch.msgs) := by
    simp only [RetryTee.pending, RetryTee.held, List.flatMap_append, List.flatMap_cons,
      List.flatMap_nil, List.append_nil]
    exact ((t.run.left_sublist.append (List.Sublist.refl _)).append
      t.flush.left_sublist).append (List.Sublist.refl _)
  have hinUse : t.inUse = (t.held.flatMap TeeBatch.msgs).map TeeMsg.buf := by
    rw [RetryTee.inUse, List.map_flatMap]
    rfl
  exact hinUse ▸ hmsgs.map TeeMsg.buf

/-- A step that passes copies on keeps the books, if it gives up no copy uncounted and
no buffer turns up twice. -/
theorem RetryTee.Books.passed (hbooks : t.Books)
    (hbuffers : (t'.inUse ++ t'.bufPool).Subperm (t.inUse ++ t.bufPool))
    (hheld : ∀ b ∈ t'.held, b ∈ t.held ∨ b.bufs = [])
    (hpending : t'.pending.Sublist t.pending)
    (hfailed : t'.failed + t'.pending.length = t.failed + t.pending.length)
    (hheap : t'.heap = t.heap) (hfresh : t'.fresh = t.fresh)
    (happended : t'.appended = t.appended) (hwritten : t'.written = t.written) : t'.Books where
  owned := by
    obtain ⟨part, hperm, hsub⟩ := hbuffers
    exact hperm.nodup_iff.mp (hbooks.owned.sublist hsub)
  known := by
    intro p hp
    exact hfresh ▸ hbooks.known p (hbuffers.subset hp)
  pooled := by
    intro b hb
    rcases hheld b hb with hold | hnone
    · exact hbooks.pooled b hold
    · exact hnone ▸ List.nil_sublist _
  order := by
    have hread : t'.read = t.read := by
      funext m
      rw [RetryTee.read, RetryTee.read, hheap]
    rw [hwritten, hread, happended]
    exact ((List.Sublist.refl _).append (hpending.map t.read)).trans hbooks.order
  count := by
    have hcount := hbooks.count
    rw [happended, hwritten]
    omega

/-- Buffer `p` is nowhere else once it is drawn. -/
theorem RetryTee.Draw.fresh {p fresh : Nat} {pool : List Nat} (hdraw : t.Draw p pool fresh)
    (hbooks : t.Books) :
    (t.inUse ++ [p] ++ pool).Nodup ∧ ∀ q ∈ t.inUse ++ [p] ++ pool, q < fresh := by
  have howned := hbooks.owned
  have hknown := hbooks.known
  cases hdraw with
  | @pooled before after _ hpool =>
      have hperm : (t.inUse ++ t.bufPool).Perm (t.inUse ++ [p] ++ (before ++ after)) := by
        rw [hpool, List.append_assoc, List.singleton_append]
        exact List.Perm.append_left t.inUse List.perm_middle
      exact ⟨hperm.nodup_iff.mp howned, fun q hq => hknown q (hperm.mem_iff.mpr hq)⟩
  | made =>
      have hperm : (t.fresh :: (t.inUse ++ t.bufPool)).Perm
          (t.inUse ++ [t.fresh] ++ t.bufPool) := by
        rw [List.append_assoc, List.singleton_append]
        exact List.perm_middle.symm
      have hnew : t.fresh ∉ t.inUse ++ t.bufPool := fun hmem => lt_irrefl _ (hknown _ hmem)
      refine ⟨hperm.nodup_iff.mp (List.nodup_cons.mpr ⟨hnew, howned⟩), ?_⟩
      intro q hq
      rcases List.mem_cons.mp (hperm.mem_iff.mpr hq) with rfl | hold
      · exact Nat.lt_succ_self _
      · exact Nat.lt_succ_of_lt (hknown q hold)

/-- A copy into a buffer not in use leaves the copies on their way as they are. -/
theorem RetryTee.read_copied (raw : Bytes) {p : Nat} (hp : p ∉ t.inUse) :
    (t.copied raw p).pending.map (t.copied raw p).read = t.pending.map t.read ++ [raw] := by
  have hpending : (t.copied raw p).pending = t.pending ++ [⟨p, raw.length⟩] := by
    simp [RetryTee.pending, RetryTee.copied]
  have hnew : (t.copied raw p).read ⟨p, raw.length⟩ = raw := by
    simp [RetryTee.read, RetryTee.copied]
  have hold : ∀ m ∈ t.pending, (t.copied raw p).read m = t.read m := by
    intro m hm
    have hne : m.buf ≠ p := by
      rintro rfl
      exact hp (t.pending_inUse.subset (List.mem_map_of_mem hm))
    simp [RetryTee.read, RetryTee.copied, hne]
  rw [hpending, List.map_append, List.map_congr_left hold, List.map_singleton, hnew]

/-- `append` into a drawn buffer keeps the books. -/
theorem RetryTee.Books.append (hbooks : t.Books) {raw : Bytes} {p fresh : Nat}
    {pool bufs : List Nat} (hdraw : t.Draw p pool fresh)
    (hbufs : bufs.Sublist (t.msgs.map TeeMsg.buf ++ [p])) :
    RetryTee.Books { t.copied raw p with bufs := bufs, bufPool := pool, fresh := fresh } := by
  obtain ⟨howned, hknown⟩ := hdraw.fresh hbooks
  have hinUse :
      RetryTee.inUse { t.copied raw p with bufs := bufs, bufPool := pool, fresh := fresh } =
        t.inUse ++ [p] := by
    simp [RetryTee.inUse, RetryTee.held, RetryTee.copied, TeeBatch.buffers]
  have hp : p ∉ t.inUse := by
    rw [List.append_assoc] at howned
    exact fun hmem => (List.nodup_append.mp howned).2.2 p hmem p (by simp) rfl
  have hread := RetryTee.read_copied raw hp
  refine ⟨hinUse ▸ howned, hinUse ▸ hknown, ?_, ?_, ?_⟩
  · intro b hb
    rcases List.mem_append.mp hb with hold | hnew
    · exact hbooks.pooled b (List.mem_append_left _ hold)
    · rw [List.mem_singleton.mp hnew, TeeBatch.buffers]
      simpa [RetryTee.copied] using hbufs
  · change (t.written ++ (t.copied raw p).pending.map (t.copied raw p).read).Sublist
      (t.appended ++ [raw])
    rw [hread, ← List.append_assoc]
    exact hbooks.order.append (List.Sublist.refl _)
  · change (t.appended ++ [raw]).length =
      t.written.length + t.failed + (t.copied raw p).pending.length
    have hlength := congrArg List.length hread
    have hcount := hbooks.count
    simp only [List.length_map, List.length_append, List.length_singleton] at hlength ⊢
    omega

/-- A batch may be released once none of its copies is on its way. -/
theorem RetryTee.Books.release (hbooks : t.Books) (b : TeeBatch) (before after : List TeeBatch)
    (hheld : t.held = before ++ b :: after) (hleft : t'.held = before ++ after)
    (hpending : t'.pending = t.pending) (hpool : t'.bufPool = t.bufPool ++ b.bufs)
    (hheap : t'.heap = t.heap) (hfresh : t'.fresh = t.fresh)
    (happended : t'.appended = t.appended) (hwritten : t'.written = t.written)
    (hfailed : t'.failed = t.failed) : t'.Books := by
  have hb : b.bufs.Sublist b.buffers := hbooks.pooled b (hheld ▸ by simp)
  have hkept : t'.inUse ++ t'.bufPool = before.flatMap TeeBatch.buffers ++
      ((after.flatMap TeeBatch.buffers ++ t.bufPool) ++ b.bufs) := by
    rw [RetryTee.inUse, hleft, hpool, List.flatMap_append]
    simp only [List.append_assoc]
  have hall : t.inUse ++ t.bufPool = before.flatMap TeeBatch.buffers ++
      (b.buffers ++ (after.flatMap TeeBatch.buffers ++ t.bufPool)) := by
    rw [RetryTee.inUse, hheld, List.flatMap_append, List.flatMap_cons]
    simp only [List.append_assoc]
  apply hbooks.passed _ _ (hpending ▸ List.Sublist.refl _) (by rw [hfailed, hpending]) hheap
    hfresh happended hwritten
  · rw [hkept, hall]
    refine ⟨_, List.Perm.append_left _ List.perm_append_comm, ?_⟩
    exact (List.Sublist.refl _).append (hb.append (List.Sublist.refl _))
  · intro other hother
    rw [hleft] at hother
    rw [hheld]
    rcases List.mem_append.mp hother with hmem | hmem
    · exact Or.inl (List.mem_append_left _ hmem)
    · exact Or.inl (List.mem_append_right _ (List.mem_cons_of_mem b hmem))

/-- A step after which the same batches hold the same copies keeps the books. -/
theorem RetryTee.Books.same (hbooks : t.Books) (hinUse : t'.inUse = t.inUse)
    (hpending : t'.pending = t.pending) (hheld : ∀ b ∈ t'.held, b ∈ t.held ∨ b.bufs = [])
    (hpool : t'.bufPool = t.bufPool) (hheap : t'.heap = t.heap) (hfresh : t'.fresh = t.fresh)
    (happended : t'.appended = t.appended) (hwritten : t'.written = t.written)
    (hfailed : t'.failed = t.failed) : t'.Books :=
  hbooks.passed (by rw [hinUse, hpool]) hheld (hpending ▸ List.Sublist.refl _)
    (by rw [hfailed, hpending]) hheap hfresh happended hwritten

/-- The batch stays in hand when `WriteBatch` answers, less what it took. -/
theorem RetryTee.answered_run (t : RetryTee) (b : TeeBatch) (off : Nat) (count : Int)
    (err : Option WriteError) :
    (t.answered b off count err).run.batch = some b ∧ (t.answered b off count err).run.left =
      b.msgs.drop (off + clampSent count (b.msgs.length - off)) := by
  cases err with
  | some err => exact ⟨rfl, rfl⟩
  | none =>
      by_cases hcount : 0 < count
      · simp [RetryTee.answered, hcount, RunPos.batch, RunPos.left]
      · simp [RetryTee.answered, hcount, RunPos.batch, RunPos.left]

/-- What `WriteBatch` took is written, from the front of what is on its way. -/
theorem RetryTee.Books.answered (hbooks : t.Books) {b : TeeBatch} {off : Nat}
    (hrun : t.run = .calling b off) (count : Int) (err : Option WriteError) :
    (t.answered b off count err).Books := by
  obtain ⟨hbatch, hleft⟩ := t.answered_run b off count err
  have hheld : (t.answered b off count err).held = t.held := by
    rw [RetryTee.held, hbatch, RetryTee.held, hrun]
    rfl
  have hpending : t.pending = (b.msgs.drop off).take (clampSent count (b.msgs.length - off)) ++
      (t.answered b off count err).pending := by
    rw [RetryTee.pending, RetryTee.pending, hleft, hrun, RunPos.left, ← List.drop_drop]
    simp only [← List.append_assoc, List.take_append_drop]
    rfl
  have horder := hbooks.order
  have hcount := hbooks.count
  rw [hpending] at horder hcount
  refine ⟨?_, ?_, ?_, ?_, ?_⟩
  · rw [RetryTee.inUse, hheld]
    exact hbooks.owned
  · rw [RetryTee.inUse, hheld]
    exact hbooks.known
  · rw [hheld]
    exact hbooks.pooled
  · rw [List.map_append, ← List.append_assoc] at horder
    exact horder
  · simp only [RetryTee.answered, List.length_append, List.length_map] at hcount ⊢
    omega

/-- Copies that are counted as failed are on their way no longer. -/
theorem RetryTee.Books.missed (hbooks : t.Books) (before gone after : List TeeMsg)
    (hheld : t'.held = t.held) (hpending : t.pending = before ++ gone ++ after)
    (hleft : t'.pending = before ++ after) (hfailed : t'.failed = t.failed + gone.length)
    (hpool : t'.bufPool = t.bufPool) (hheap : t'.heap = t.heap) (hfresh : t'.fresh = t.fresh)
    (happended : t'.appended = t.appended) (hwritten : t'.written = t.written) : t'.Books := by
  apply hbooks.passed _ _ _ _ hheap hfresh happended hwritten
  · rw [RetryTee.inUse, hheld, hpool]
    exact List.Subperm.refl _
  · exact fun b hb => Or.inl (hheld ▸ hb)
  · rw [hpending, hleft]
    exact (List.sublist_append_left before gone).append (List.Sublist.refl after)
  · rw [hpending, hleft, hfailed]
    simp only [List.length_append]
    omega

theorem RetryTee.Books.ran (hbooks : t.Books) (pos : RunPos) (hbatch : pos.batch = t.run.batch)
    (hleft : pos.left = t.run.left) : RetryTee.Books { t with run := pos } := by
  have hheld : RetryTee.held { t with run := pos } = t.held := by
    simp only [RetryTee.held, hbatch]
  refine hbooks.same ?_ ?_ ?_ rfl rfl rfl rfl rfl rfl
  · simp only [RetryTee.inUse, hheld]
  · simp only [RetryTee.pending, hleft]
  · exact fun b hb => Or.inl (hheld ▸ hb)

theorem RetryTee.Books.flushed (hbooks : t.Books) (pos : FlushPos)
    (hbatch : pos.batch = t.flush.batch) (hleft : pos.left = t.flush.left) :
    RetryTee.Books { t with flush := pos } := by
  have hheld : RetryTee.held { t with flush := pos } = t.held := by
    simp only [RetryTee.held, hbatch]
  refine hbooks.same ?_ ?_ ?_ rfl rfl rfl rfl rfl rfl
  · simp only [RetryTee.inUse, hheld]
  · simp only [RetryTee.pending, hleft]
  · exact fun b hb => Or.inl (hheld ▸ hb)

end Custody

theorem RetryTee.Books.step {a : TeeActor} {t t' : RetryTee} (hbooks : t.Books)
    (hwired : t.Wired) (hstep : Step a t t') : t'.Books := by
  have hpooled : t.bufs.Sublist (t.msgs.map TeeMsg.buf) :=
    hbooks.pooled ⟨t.msgs, t.bufs, none⟩ (List.mem_append_right _ (List.mem_singleton_self _))
  cases hstep with
  | append hflush hsmall hdraw =>
      exact hbooks.append hdraw (hpooled.append (List.Sublist.refl _))
  | appendLarge hflush hlarge =>
      exact hbooks.append .made (hpooled.trans (List.sublist_append_left _ _))
  | flushNothing => exact hbooks
  | flush hflush hmsgs =>
      refine hbooks.same ?_ ?_ ?_ rfl rfl rfl rfl rfl rfl
      · simp [RetryTee.inUse, RetryTee.held, hflush, FlushPos.batch, TeeBatch.buffers]
      · simp [RetryTee.pending, hflush, FlushPos.left]
      · simp only [RetryTee.held, hflush, FlushPos.batch, List.mem_append, Option.toList]
        grind
  | flushLock hflush hmu =>
      exact { hbooks.flushed (.locked _) (by rw [hflush]; rfl) (by rw [hflush]; rfl) with }
  | flushClosed hflush hclosed =>
      exact { hbooks.flushed (.dropping _) (by rw [hflush]; rfl) (by rw [hflush]; rfl) with }
  | flushStart hflush hclosed hstarted =>
      have habsent := hwired.absent.mp hstarted
      exact { (hbooks.flushed (.offering _) (by rw [hflush]; rfl) (by rw [hflush]; rfl)).ran
        .receiving (by simp [habsent, RunPos.batch]) (by simp [habsent, RunPos.left]) with }
  | flushStarted hflush hclosed hstarted =>
      exact hbooks.flushed (.offering _) (by rw [hflush]; rfl) (by rw [hflush]; rfl)
  | flushSend hflush hchan hroom =>
      refine hbooks.same ?_ ?_ ?_ rfl rfl rfl rfl rfl rfl
      · simp [RetryTee.inUse, RetryTee.held, hflush, FlushPos.batch]
      · simp [RetryTee.pending, hflush, FlushPos.left]
      · simp only [RetryTee.held, hflush, FlushPos.batch, List.mem_append, Option.toList]
        grind
  | flushFull hflush hfull =>
      exact { hbooks.flushed (.dropping _) (by rw [hflush]; rfl) (by rw [hflush]; rfl) with }
  | @flushMissed t b hflush =>
      refine hbooks.missed (t.run.left ++ t.batches.flatMap TeeBatch.msgs) b.msgs t.msgs
        ?_ ?_ ?_ rfl rfl rfl rfl rfl rfl
      · simp [RetryTee.held, hflush, FlushPos.batch]
      · simp [RetryTee.pending, hflush, FlushPos.left]
      · simp [RetryTee.pending, FlushPos.left]
  | @flushRelease t b hflush =>
      refine hbooks.release b (t.run.batch.toList ++ t.batches) [⟨t.msgs, t.bufs, none⟩]
        ?_ ?_ ?_ rfl rfl rfl rfl rfl rfl
      · simp [RetryTee.held, hflush, FlushPos.batch]
      · simp [RetryTee.held, FlushPos.batch, RetryTee.release]
      · simp [RetryTee.pending, hflush, FlushPos.left, RetryTee.release]
  | receive hrun hbatches =>
      refine hbooks.same ?_ ?_ ?_ rfl rfl rfl rfl rfl rfl
      · simp [RetryTee.inUse, RetryTee.held, hrun, hbatches, RunPos.batch]
      · simp [RetryTee.pending, hrun, hbatches, RunPos.left]
      · simp [RetryTee.held, hrun, hbatches, RunPos.batch]
        grind
  | leave hrun hbatches hchan =>
      exact hbooks.ran .ended (by rw [hrun]; rfl) (by rw [hrun]; rfl)
  | writeNothing hrun hmsgs =>
      exact hbooks.ran (.releasing _) (by rw [hrun]; rfl) (by rw [hrun]; exact hmsgs.symm)
  | write hrun hmsgs =>
      exact hbooks.ran (.writing _ 0) (by rw [hrun]; rfl) (by rw [hrun]; exact List.drop_zero)
  | call hrun hleft =>
      exact hbooks.ran (.calling _ _) (by rw [hrun]; rfl) (by rw [hrun]; rfl)
  | answer hrun count err => exact hbooks.answered hrun count err
  | drained hrun hleft =>
      exact hbooks.ran (.wrote _ _ none) (by rw [hrun]; rfl) (by rw [hrun]; rfl)
  | @missed t b sent err hrun hshort =>
      refine hbooks.missed [] (b.msgs.drop sent)
        (t.batches.flatMap TeeBatch.msgs ++ t.flush.left ++ t.msgs) ?_ ?_ ?_ ?_ rfl rfl rfl rfl rfl
      · simp [RetryTee.held, hrun, RunPos.batch]
      · simp [RetryTee.pending, hrun, RunPos.left]
      · simp [RetryTee.pending, RunPos.left]
      · simp
  | sentAll hrun hall =>
      exact hbooks.ran (.releasing _) (by rw [hrun]; rfl)
        (by rw [hrun]; exact (List.drop_eq_nil_of_le hall).symm)
  | @release t b hrun =>
      refine hbooks.release b [] (t.batches ++ t.flush.batch.toList ++ [⟨t.msgs, t.bufs, none⟩])
        ?_ ?_ ?_ rfl rfl rfl rfl rfl rfl
      · simp [RetryTee.held, hrun, RunPos.batch]
      · simp [RetryTee.held, RunPos.batch, RetryTee.release]
      · simp [RetryTee.pending, hrun, RunPos.left, RetryTee.release]
  | waitSend hwait hchan hroom =>
      refine hbooks.same ?_ ?_ ?_ rfl rfl rfl rfl rfl rfl
      · simp [RetryTee.inUse, RetryTee.held, RetryTee.setWait, TeeBatch.buffers]
      · simp [RetryTee.pending, RetryTee.setWait]
      · simp [RetryTee.held, RetryTee.setWait]
        grind
  | closeShut hclose =>
      rw [RetryTee.shut]
      split_ifs
      · exact { hbooks with }
      · split <;> exact { hbooks with }
      · exact { hbooks with }
  | _ => exact { hbooks with }

theorem RetryTee.books_new : RetryTee.new.Books where
  owned := List.nodup_nil
  known := by simp [RetryTee.new, RetryTee.inUse, RetryTee.held, RunPos.batch, FlushPos.batch,
    TeeBatch.buffers]
  pooled := by simp [RetryTee.new, RetryTee.held, RunPos.batch, FlushPos.batch]
  order := List.nil_sublist _
  count := rfl

theorem RetryTee.Reachable.books {t : RetryTee} (hreach : t.Reachable) : t.Books := by
  induction hreach with
  | new => exact RetryTee.books_new
  | step hreach hstep ih => exact ih.step hreach.orderly.wired hstep

/-- A call of `flush` that found some copies, as far as it has got; anybody may move
before it returns. -/
inductive RetryTee.FlushCall (t : RetryTee) : RetryTee → Prop where
  | nothing (hflush : t.flush = .idle) (hmsgs : t.msgs = []) : FlushCall t t
  | begun (hflush : t.flush = .idle) (hmsgs : t.msgs ≠ []) :
      FlushCall t { t with msgs := [], bufs := [], flush := .locking ⟨t.msgs, t.bufs, none⟩ }
  | step {a : TeeActor} {mid t' : RetryTee} (hcall : FlushCall t mid) (hbusy : mid.flush ≠ .idle)
      (hstep : Step a mid t') : FlushCall t t'

section AfterClose

variable {a : TeeActor} {t t' : RetryTee}

/-- After a `close` nobody has anything queued. -/
theorem RetryTee.Orderly.queue_empty (horderly : t.Orderly) {i : Nat}
    (hclose : t.closes i = .returned) : t.batches = [] := by
  have hrelies := horderly.closes i
  rw [hclose] at hrelies
  cases hstarted : t.started with
  | true => exact (horderly.wired.ended (hrelies.2 hstarted)).2
  | false => exact horderly.wired.unstarted hstarted

/-- A sender that is gone counts nothing. -/
theorem RetryTee.Step.failed_eq (hstep : Step a t t') (hegress : a ≠ .egress)
    (hrun : t.run = .absent ∨ t.run = .ended) : t'.failed = t.failed := by
  cases hstep with
  | flushMissed => exact absurd rfl hegress
  | missed hwrote =>
      rcases hrun with hrun | hrun <;> exact absurd (hwrote.symm.trans hrun) (by simp)
  | closeShut => exact t.shut_frame.2.2.2.2.2.2.2
  | _ => rfl

/-- How far a flush of a closed tee has got with dropping its batch. -/
def RetryTee.Dropping (t mid : RetryTee) : Prop :=
  (∃ b, b.msgs = t.msgs ∧
    (mid.flush = .locking b ∨ mid.flush = .locked b ∨ mid.flush = .dropping b) ∧
    mid.failed = t.failed) ∨
  ((∃ b, mid.flush = .releasing b) ∨ mid.flush = .idle) ∧
    mid.failed = t.failed + t.msgs.length

/-- A flush of a closed tee goes on dropping its batch. -/
theorem RetryTee.Dropping.step {mid : RetryTee} (hdropping : t.Dropping mid)
    (hbusy : mid.flush ≠ .idle) (hclosed : mid.closed = true)
    (hrun : mid.run = .absent ∨ mid.run = .ended) (hstep : Step a mid t') : t.Dropping t' := by
  by_cases hself : a = .egress
  · subst hself
    rcases hdropping with ⟨b, hmsgs, hpos, hfailed⟩ | ⟨hpos, hfailed⟩
    · cases hstep with
      | @flushLock _ other hflush hmu =>
          exact Or.inl ⟨b, hmsgs, by simp_all, hfailed⟩
      | flushClosed hflush _ => exact Or.inl ⟨b, hmsgs, by simp_all, hfailed⟩
      | flushMissed hflush =>
          refine Or.inr ⟨Or.inl ⟨_, rfl⟩, ?_⟩
          simp_all
      | _ => simp_all
    · cases hstep with
      | flushRelease => exact Or.inr ⟨Or.inr rfl, hfailed⟩
      | _ => simp_all
  · have hflush : t'.flush = mid.flush := by
      rcases hstep.flush_cases hself with hsame | ⟨hidle, _⟩
      · exact hsame
      · exact absurd hidle hbusy
    rw [Dropping, hflush, hstep.failed_eq hself hrun]
    exact hdropping

theorem RetryTee.FlushCall.dropping (hcall : t.FlushCall t') (hreach : t.Reachable)
    (hrelies : ClosePos.returned.Relies t) :
    t'.Reachable ∧ ClosePos.returned.Relies t' ∧ t.Dropping t' := by
  induction hcall with
  | nothing hflush hmsgs =>
      exact ⟨hreach, hrelies, Or.inr ⟨Or.inr hflush, by rw [hmsgs]; rfl⟩⟩
  | begun hflush hmsgs =>
      have hstep := Step.flush hflush hmsgs
      exact ⟨hreach.step hstep, hrelies.step hstep, Or.inl ⟨_, rfl, Or.inl rfl, rfl⟩⟩
  | @step a mid t' _ hbusy hstep ih =>
      obtain ⟨hreached, hclosed, hdropping⟩ := ih
      have hrun : mid.run = .absent ∨ mid.run = .ended := by
        cases hstarted : mid.started with
        | true => exact Or.inr (hclosed.2 hstarted)
        | false => exact Or.inl (hreached.orderly.wired.absent.mp hstarted)
      exact ⟨hreached.step hstep, hclosed.step hstep,
        hdropping.step hbusy hclosed.1 hrun hstep⟩

/-- A flush that begins after a `close` has returned counts its whole batch as failed. -/
theorem RetryTee.FlushCall.failed (hcall : t.FlushCall t') (hreach : t.Reachable) {i : Nat}
    (hclose : t.closes i = .returned) (hdone : t'.flush = .idle) :
    t'.failed = t.failed + t.msgs.length := by
  have hrelies := hreach.orderly.closes i
  rw [hclose] at hrelies
  rcases (hcall.dropping hreach hrelies).2.2 with ⟨_, _, hpos, _⟩ | ⟨_, hfailed⟩
  · simp [hdone] at hpos
  · exact hfailed

end AfterClose

end ShardProxy
