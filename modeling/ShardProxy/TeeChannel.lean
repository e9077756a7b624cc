/-
The mutex and the channel of a retry tee.  Whoever is past its `Lock` holds the mutex
alone, so the flags `started` and `closed` do not change under a sender on the channel:
nobody sends on it closed, and it is closed once.
-/
import ShardProxy.RetryTee

namespace ShardProxy

open ByteField FairRun

section Frames

variable {a : TeeActor} {t t' : RetryTee}

/-- `close` under the mutex moves nobody and touches no copy. -/
theorem RetryTee.shut_frame (t : RetryTee) :
    t.shut.mu = t.mu ∧ t.shut.flush = t.flush ∧ t.shut.waits = t.waits ∧
      t.shut.closes = t.closes ∧ t.shut.run = t.run ∧ t.shut.batches = t.batches ∧
      t.shut.acked = t.acked ∧ t.shut.failed = t.failed := by
  rw [RetryTee.shut]
  split_ifs
  · exact ⟨rfl, rfl, rfl, rfl, rfl, rfl, rfl, rfl⟩
  · split <;> exact ⟨rfl, rfl, rfl, rfl, rfl, rfl, rfl, rfl⟩
  · exact ⟨rfl, rfl, rfl, rfl, rfl, rfl, rfl, rfl⟩

/-- A `wait` moves by its own steps, once it is called. -/
theorem RetryTee.Step.waits_cases (hstep : Step a t t') {i : Nat} (hne : a ≠ .waiter i) :
    t'.waits i = t.waits i ∨ t.waits i = .none ∧ t'.waits i = .locking := by
  have hother : ∀ {j : Nat} (pos : WaitPos), TeeActor.waiter j ≠ .waiter i →
      Function.update t.waits j pos i = t.waits i := by
    intro j pos hj
    exact Function.update_of_ne (fun heq => hj (congrArg TeeActor.waiter heq.symm)) pos t.waits
  cases hstep with
  | @callWait _ j hwait =>
      by_cases hij : i = j
      · subst hij
        exact Or.inr ⟨hwait, Function.update_self i _ _⟩
      · exact Or.inl (Function.update_of_ne hij _ _)
  | waitLock | waitSkip | waitOffer | waitSend | waitReturn => exact Or.inl (hother _ hne)
  | closeShut => exact Or.inl (congrFun t.shut_frame.2.2.1 i)
  | _ => exact Or.inl rfl

/-- A `close` moves by its own steps, once it is called. -/
theorem RetryTee.Step.closes_cases (hstep : Step a t t') {i : Nat} (hne : a ≠ .closer i) :
    t'.closes i = t.closes i ∨ t.closes i = .none ∧ t'.closes i = .locking := by
  have hother : ∀ {j : Nat} (f : Nat → ClosePos) (pos : ClosePos), TeeActor.closer j ≠ .closer i →
      Function.update f j pos i = f i := by
    intro j f pos hj
    exact Function.update_of_ne (fun heq => hj (congrArg TeeActor.closer heq.symm)) pos f
  cases hstep with
  | @callClose _ j hclose =>
      by_cases hij : i = j
      · subst hij
        exact Or.inr ⟨hclose, Function.update_self i _ _⟩
      · exact Or.inl (Function.update_of_ne hij _ _)
  | closeLock => exact Or.inl (hother _ _ hne)
  | closeShut => exact Or.inl ((hother _ _ hne).trans (congrFun t.shut_frame.2.2.2.1 i))
  | closeWait | closeSkip | closeReturn => exact Or.inl (hother _ _ hne)
  | _ => exact Or.inl rfl

/-- A `flush` moves by the Egress goroutine's steps, once it is called. -/
theorem RetryTee.Step.flush_cases (hstep : Step a t t') (hne : a ≠ .egress) :
    t'.flush = t.flush ∨ t.flush = .idle ∧ ∃ b, t'.flush = .locking b := by
  cases hstep with
  | flush hflush => exact Or.inr ⟨hflush, _, rfl⟩
  | closeShut => exact Or.inl t.shut_frame.2.1
  | flushLock | flushClosed | flushStart | flushStarted | flushSend | flushFull | flushMissed
  | flushRelease =>
      exact absurd rfl hne
  | _ => exact Or.inl rfl

/-- What a step does to the mutex: nothing, take it free, or give it back. -/
theorem RetryTee.Step.mutex (hstep : Step a t t') :
    t'.mu = t.mu ∧ (t'.Holds a ↔ t.Holds a) ∨ t.mu = none ∧ t'.mu = some a ∧ t'.Holds a ∨
      t'.mu = none ∧ t.Holds a ∧ ¬ t'.Holds a := by
  cases hstep with
  | append | appendLarge | answer | release => exact Or.inl ⟨rfl, Iff.rfl⟩
  | flushRelease hflush => exact Or.inl ⟨rfl, by simp [Holds, hflush]⟩
  | closeShut hclose => exact Or.inl ⟨t.shut_frame.1, by simp [Holds, setClose, hclose]⟩
  | _ => simp_all [Holds, setWait, setClose]

/-- Nobody takes or gives back the mutex for another. -/
theorem RetryTee.Step.holds_other (hstep : Step a t t') {c : TeeActor} (hne : a ≠ c) :
    t'.Holds c ↔ t.Holds c := by
  cases c with
  | egress =>
      rcases hstep.flush_cases hne with hsame | ⟨hidle, b, hlocking⟩
      · simp only [Holds, hsame]
      · simp [Holds, hidle, hlocking]
  | waiter i =>
      rcases hstep.waits_cases hne with hsame | ⟨hnone, hlocking⟩
      · simp only [Holds, hsame]
      · simp [Holds, hnone, hlocking]
  | closer i =>
      rcases hstep.closes_cases hne with hsame | ⟨hnone, hlocking⟩
      · simp only [Holds, hsame]
      · simp [Holds, hnone, hlocking]
  | _ => exact Iff.rfl

end Frames

/-- The mutex has the holder the positions say. -/
def RetryTee.Guarded (t : RetryTee) : Prop :=
  ∀ a, t.mu = some a ↔ t.Holds a

theorem RetryTee.guarded_new : RetryTee.new.Guarded := by
  intro a
  cases a <;> simp [RetryTee.new, Holds]

theorem RetryTee.Guarded.step {a : TeeActor} {t t' : RetryTee} (hguarded : t.Guarded)
    (hstep : Step a t t') : t'.Guarded := by
  intro c
  by_cases hc : a = c
  · subst hc
    rcases hstep.mutex with ⟨hmu, hholds⟩ | ⟨_, hmu, hholds⟩ | ⟨hmu, _, hholds⟩
    · rw [hmu, hholds]
      exact hguarded a
    · exact ⟨fun _ => hholds, fun _ => hmu⟩
    · rw [hmu]
      exact ⟨fun hsome => absurd hsome (by simp), fun h => absurd h hholds⟩
  · rw [hstep.holds_other hc, ← hguarded c]
    rcases hstep.mutex with ⟨hmu, _⟩ | ⟨hfree, hmu, _⟩ | ⟨hmu, hheld, _⟩
    · rw [hmu]
    · rw [hfree, hmu]
      exact ⟨fun heq => absurd (Option.some.inj heq) hc, fun heq => absurd heq (by simp)⟩
    · rw [hmu, (hguarded a).mpr hheld]
      exact ⟨fun heq => absurd heq (by simp), fun heq => absurd (Option.some.inj heq) hc⟩

/-- Two do not hold the mutex at once. -/
theorem RetryTee.Guarded.exclusive {a c : TeeActor} {t : RetryTee} (hguarded : t.Guarded)
    (ha : t.Holds a) (hc : t.Holds c) : a = c :=
  Option.some.inj (((hguarded a).mpr ha).symm.trans ((hguarded c).mpr hc))

/-- The channel is as the flags say, the sender is there from the start of the channel to
its end, whoever sends has seen it open, and nothing went wrong with it. -/
structure RetryTee.Wired (t : RetryTee) : Prop where
  chan : t.chan = if t.started then if t.closed then .closed else .opened else .unmade
  absent : t.started = false ↔ t.run = .absent
  unstarted : t.started = false → t.batches = []
  bounded : t.batches.length ≤ teeQueueDepth
  ended : t.run = .ended → t.closed = true ∧ t.batches = []
  offering : ∀ b, t.flush = .offering b → t.started = true ∧ t.closed = false
  sending : ∀ i, t.waits i = .sending → t.started = true ∧ t.closed = false
  calm : t.panicked = false
  closings : t.closings = if t.started && t.closed then 1 else 0

theorem RetryTee.wired_new : RetryTee.new.Wired where
  chan := rfl
  absent := ⟨fun _ => rfl, fun _ => rfl⟩
  unstarted := fun _ => rfl
  bounded := Nat.zero_le _
  ended := by simp [RetryTee.new]
  offering := by simp [RetryTee.new]
  sending := by simp [RetryTee.new]
  calm := rfl
  closings := rfl

section Channel

variable {t : RetryTee}

theorem RetryTee.Wired.opened (hwired : t.Wired) (hstarted : t.started = true)
    (hclosed : t.closed = false) : t.chan = .opened := by
  rw [hwired.chan, hstarted, hclosed]
  rfl

theorem RetryTee.Wired.chan_closed (hwired : t.Wired) (hstarted : t.started = true)
    (hclosed : t.closed = true) : t.chan = .closed := by
  rw [hwired.chan, hstarted, hclosed]
  rfl

theorem RetryTee.Wired.of_closed (hwired : t.Wired) (hchan : t.chan = .closed) :
    t.started = true ∧ t.closed = true := by
  have hflags := hwired.chan
  rw [hchan] at hflags
  split_ifs at hflags with hstarted hclosed
  exact ⟨hstarted, hclosed⟩

theorem RetryTee.Wired.started (hwired : t.Wired) (hrun : t.run ≠ .absent) :
    t.started = true :=
  Bool.eq_true_of_not_eq_false fun hfresh => hrun (hwired.absent.mp hfresh)

theorem RetryTee.Wired.ran (hwired : t.Wired) (hrun : t.run ≠ .absent) (pos : RunPos)
    (habsent : pos ≠ .absent) (hended : pos ≠ .ended) :
    RetryTee.Wired { t with run := pos } :=
  have hstarted := hwired.started hrun
  { hwired with
    absent := ⟨fun hfresh => absurd hfresh (by simp [hstarted]), fun heq => absurd heq habsent⟩
    ended := fun heq => absurd heq hended }

/-- A batch joins the queue of an open channel. -/
theorem RetryTee.Wired.queued (hwired : t.Wired) (hstarted : t.started = true)
    (hclosed : t.closed = false) (hroom : t.batches.length < teeQueueDepth) (b : TeeBatch) :
    RetryTee.Wired { t with batches := t.batches ++ [b] } :=
  { hwired with
    unstarted := fun hfresh => absurd hfresh (by simp [hstarted])
    bounded := by simpa using hroom
    ended := fun hrun => absurd (hwired.ended hrun).1 (by simp [hclosed]) }

theorem RetryTee.Wired.flushed (hwired : t.Wired) (pos : FlushPos)
    (hpos : ∀ b, pos ≠ .offering b) : RetryTee.Wired { t with flush := pos } :=
  { hwired with offering := fun b heq => absurd heq (hpos b) }

theorem RetryTee.Wired.waited (hwired : t.Wired) (i : Nat) (pos : WaitPos)
    (hpos : pos ≠ .sending) : (t.setWait i pos).Wired :=
  { hwired with
    sending := by
      intro j hj
      by_cases hij : j = i
      · subst hij
        simp only [RetryTee.setWait, Function.update_self] at hj
        exact absurd hj hpos
      · simp only [RetryTee.setWait, Function.update_of_ne hij] at hj
        exact hwired.sending j hj }

/-- `close` holds the mutex, so nobody is sending when it closes the channel. -/
theorem RetryTee.Wired.shut (hwired : t.Wired) (hguarded : t.Guarded) {i : Nat}
    (hclose : t.closes i = .locked) : t.shut.Wired := by
  have hholds : t.Holds (.closer i) := Or.inl hclose
  have hoffering : ∀ b, t.flush ≠ .offering b := by
    intro b hb
    have hegress : t.Holds .egress := ⟨b, Or.inr hb⟩
    exact absurd (hguarded.exclusive hegress hholds) (by simp)
  have hsending : ∀ j, t.waits j ≠ .sending := by
    intro j hj
    have hwaiter : t.Holds (.waiter j) := Or.inr hj
    exact absurd (hguarded.exclusive hwaiter hholds) (by simp)
  rw [RetryTee.shut]
  split_ifs with hclosed hstarted
  · exact hwired
  · have hopen := hwired.opened hstarted (Bool.eq_false_of_not_eq_true hclosed)
    have hclosings : t.closings = 0 := by
      rw [hwired.closings, Bool.eq_false_of_not_eq_true hclosed, Bool.and_false]
      rfl
    rw [hopen]
    exact { hwired with
      chan := by simp [hstarted]
      ended := fun hrun => ⟨rfl, (hwired.ended hrun).2⟩
      offering := fun b hb => absurd hb (hoffering b)
      sending := fun j hj => absurd hj (hsending j)
      closings := by simp [hstarted, hclosings] }
  · have hfresh := Bool.eq_false_of_not_eq_true hstarted
    exact { hwired with
      chan := by rw [hwired.chan, hfresh]; rfl
      ended := fun hrun => ⟨rfl, (hwired.ended hrun).2⟩
      offering := fun b hb => absurd hb (hoffering b)
      sending := fun j hj => absurd hj (hsending j)
      closings := by rw [hwired.closings, hfresh]; rfl }

end Channel

theorem RetryTee.Wired.step {a : TeeActor} {t t' : RetryTee} (hwired : t.Wired)
    (hguarded : t.Guarded) (hstep : Step a t t') : t'.Wired := by
  cases hstep with
  | flush hflush hmsgs => exact { hwired.flushed (.locking _) (by simp) with }
  | callWait hwait => exact hwired.waited _ .locking (by simp)
  | flushLock hflush hmu => exact { hwired.flushed (.locked _) (by simp) with }
  | flushClosed hflush hclosed => exact { hwired.flushed (.dropping _) (by simp) with }
  | flushStart hflush hclosed hstarted =>
      exact { hwired with
        chan := by rw [hclosed]; rfl
        absent := by simp
        unstarted := by simp
        ended := by simp
        offering := fun _ _ => ⟨rfl, hclosed⟩
        sending := fun _ _ => ⟨rfl, hclosed⟩
        closings := by rw [hwired.closings, hstarted, hclosed]; rfl }
  | flushStarted hflush hclosed hstarted =>
      exact { hwired with offering := fun _ _ => ⟨hstarted, hclosed⟩ }
  | flushSend hflush hchan hroom =>
      obtain ⟨hstarted, hclosed⟩ := hwired.offering _ hflush
      exact { (hwired.queued hstarted hclosed hroom _).flushed .idle (by simp) with }
  | flushPanic hflush hchan =>
      exact absurd (hwired.of_closed hchan).2 (by simp [(hwired.offering _ hflush).2])
  | flushFull hflush hfull => exact { hwired.flushed (.dropping _) (by simp) with }
  | flushMissed hflush => exact { hwired.flushed (.releasing _) (by simp) with }
  | flushRelease hflush => exact { hwired.flushed .idle (by simp) with }
  | receive hrun hbatches =>
      have hstarted := hwired.started (by simp [hrun])
      have hbounded := hwired.bounded
      rw [hbatches] at hbounded
      exact { hwired.ran (by simp [hrun]) (.holding _) (by simp) (by simp) with
        bounded := Nat.le_of_succ_le hbounded
        unstarted := fun hfresh => absurd hfresh (by simp [hstarted])
        ended := by simp }
  | leave hrun hbatches hchan =>
      obtain ⟨hstarted, hclosed⟩ := hwired.of_closed hchan
      exact { hwired with
        absent := ⟨fun hfresh => absurd hfresh (by simp [hstarted]),
          fun heq => absurd heq (by simp)⟩
        ended := fun _ => ⟨hclosed, hbatches⟩ }
  | writeNothing hrun hmsgs => exact hwired.ran (by simp [hrun]) (.releasing _) (by simp) (by simp)
  | write hrun hmsgs => exact hwired.ran (by simp [hrun]) (.writing _ 0) (by simp) (by simp)
  | call hrun hleft => exact hwired.ran (by simp [hrun]) (.calling _ _) (by simp) (by simp)
  | answer hrun count err =>
      have hrunning := hwired.ran (by simp [hrun])
      cases err with
      | some err => exact { hrunning (.wrote _ _ _) (by simp) (by simp) with }
      | none =>
          rw [RetryTee.answered]
          by_cases hcount : 0 < count
          · simp only [hcount, ↓reduceIte]
            exact { hrunning (.writing _ _) (by simp) (by simp) with }
          · simp only [hcount, ↓reduceIte]
            exact { hrunning (.wrote _ _ _) (by simp) (by simp) with }
  | drained hrun hleft => exact hwired.ran (by simp [hrun]) (.wrote _ _ none) (by simp) (by simp)
  | missed hrun hshort =>
      exact { hwired.ran (by simp [hrun]) (.releasing _) (by simp) (by simp) with }
  | sentAll hrun hall => exact hwired.ran (by simp [hrun]) (.releasing _) (by simp) (by simp)
  | release hrun => exact { hwired.ran (by simp [hrun]) .receiving (by simp) (by simp) with }
  | waitLock hwait hmu => exact { hwired.waited _ .locked (by simp) with }
  | waitSkip hwait hskip => exact { hwired.waited _ .returned (by simp) with }
  | @waitOffer _ i hwait hstarted hclosed =>
      exact { hwired with sending := fun _ _ => ⟨hstarted, hclosed⟩ }
  | waitSend hwait hchan hroom =>
      obtain ⟨hstarted, hclosed⟩ := hwired.sending _ hwait
      exact { (hwired.queued hstarted hclosed hroom _).waited _ .awaiting (by simp) with }
  | waitPanic hwait hchan =>
      exact absurd (hwired.of_closed hchan).2 (by simp [(hwired.sending _ hwait).2])
  | waitReturn hwait hacked => exact hwired.waited _ .returned (by simp)
  | closeShut hclose => exact { hwired.shut hguarded hclose with }
  | _ => exact { hwired with }

section Closed

variable {a : TeeActor} {t t' : RetryTee}

/-- A closed tee stays closed, and is not started any more. -/
theorem RetryTee.Step.closed_stays (hstep : Step a t t') (hclosed : t.closed = true) :
    t'.closed = true ∧ t'.started = t.started := by
  cases hstep with
  | flushStart _ hopen => exact absurd hclosed (by simp [hopen])
  | closeShut =>
      rw [RetryTee.shut, if_pos hclosed]
      exact ⟨hclosed, rfl⟩
  | _ => exact ⟨hclosed, rfl⟩

theorem RetryTee.Step.ended_stays (hstep : Step a t t') (hclosed : t.closed = true)
    (hended : t.run = .ended) : t'.run = .ended := by
  cases hstep with
  | flushStart _ hopen => exact absurd hclosed (by simp [hopen])
  | closeShut => exact t.shut_frame.2.2.2.2.1.trans hended
  | receive hrun => exact absurd hrun (by simp [hended])
  | leave => rfl
  | writeNothing hrun | write hrun | call hrun | answer hrun | drained hrun | missed hrun
  | sentAll hrun | release hrun =>
      exact absurd hrun (by simp [hended])
  | _ => exact hended

end Closed

/-- What a call of `close` relies on, by where it is: the tee is closed, with a sender to
wait for or none, and once the call has returned there is none. -/
def ClosePos.Relies (t : RetryTee) : ClosePos → Prop
  | .unlocking started => t.closed = true ∧ t.started = started
  | .awaiting => t.closed = true ∧ t.started = true
  | .returned => t.closed = true ∧ (t.started = true → t.run = .ended)
  | _ => True

theorem ClosePos.Relies.step {a : TeeActor} {t t' : RetryTee} {pos : ClosePos}
    (hrelies : pos.Relies t) (hstep : t.Step a t') : pos.Relies t' := by
  cases pos with
  | unlocking started =>
      obtain ⟨hclosed, hstarted⟩ := hstep.closed_stays hrelies.1
      exact ⟨hclosed, hstarted.trans hrelies.2⟩
  | awaiting =>
      obtain ⟨hclosed, hstarted⟩ := hstep.closed_stays hrelies.1
      exact ⟨hclosed, hstarted.trans hrelies.2⟩
  | returned =>
      obtain ⟨hclosed, hstarted⟩ := hstep.closed_stays hrelies.1
      exact ⟨hclosed, fun h => hstep.ended_stays hrelies.1 (hrelies.2 (hstarted ▸ h))⟩
  | _ => trivial

/-- `close` leaves the tee closed, and its sender as it was. -/
theorem RetryTee.shut_flags (t : RetryTee) : t.shut.closed = true ∧ t.shut.started = t.started := by
  rw [RetryTee.shut]
  split_ifs with hclosed
  · exact ⟨hclosed, rfl⟩
  · split <;> exact ⟨rfl, rfl⟩
  · exact ⟨rfl, rfl⟩

/-- Every call of `close` has what it relies on, along every step. -/
theorem RetryTee.Step.closes_rely {a : TeeActor} {t t' : RetryTee} (hstep : Step a t t')
    (hrely : ∀ i, (t.closes i).Relies t) (i : Nat) : (t'.closes i).Relies t' := by
  by_cases hself : a = .closer i
  · subst hself
    have hpos := hrely i
    cases hstep with
    | closeLock hclose hmu => simp [RetryTee.setClose, ClosePos.Relies]
    | closeShut hclose =>
        simp only [RetryTee.setClose, Function.update_self]
        exact t.shut_flags
    | closeWait hclose =>
        rw [hclose] at hpos
        simp only [RetryTee.setClose, Function.update_self]
        exact hpos
    | closeSkip hclose =>
        rw [hclose] at hpos
        simp only [RetryTee.setClose, Function.update_self]
        exact ⟨hpos.1, fun hstarted => Bool.noConfusion (hpos.2.symm.trans hstarted)⟩
    | closeReturn hclose hrun =>
        rw [hclose] at hpos
        simp only [RetryTee.setClose, Function.update_self]
        exact ⟨hpos.1, fun _ => hrun⟩
  · rcases hstep.closes_cases hself with hsame | ⟨_, hlocking⟩
    · rw [hsame]
      exact (hrely i).step hstep
    · rw [hlocking]
      trivial

/-- The order a tee keeps. -/
structure RetryTee.Orderly (t : RetryTee) : Prop where
  guarded : t.Guarded
  wired : t.Wired
  closes : ∀ i, (t.closes i).Relies t

theorem RetryTee.Reachable.orderly {t : RetryTee} (hreach : t.Reachable) : t.Orderly := by
  induction hreach with
  | new => exact ⟨RetryTee.guarded_new, RetryTee.wired_new, fun _ => trivial⟩
  | step _ hstep ih =>
      exact ⟨ih.guarded.step hstep, ih.wired.step ih.guarded hstep, hstep.closes_rely ih.closes⟩

end ShardProxy
