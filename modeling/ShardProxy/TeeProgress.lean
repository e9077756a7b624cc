/-
Progress in a retry tee.  As long as the socket answers, the sender works its queue off:
a `wait` that holds the mutex finds room, so the mutex comes free again and again, every
`wait` is answered, and every `close` sees the sender end.
-/
import ShardProxy.TeeConservation

namespace ShardProxy

open ByteField FairRun

/-- What a batch costs the sender, in steps: its calls of `WriteBatch` and the rest. -/
def TeeBatch.cost (b : TeeBatch) : Nat :=
  2 * b.msgs.length + 6

/-- What is left to do with the batch in hand. -/
def RunPos.cost : RunPos → Nat
  | .holding b => 2 * b.msgs.length + 5
  | .writing b off => 2 * (b.msgs.length - off) + 4
  | .calling b off => 2 * (b.msgs.length - off) + 3
  | .wrote _ _ _ => 2
  | .releasing _ => 1
  | _ => 0

def queueCost : List TeeBatch → Nat
  | [] => 0
  | b :: rest => b.cost + queueCost rest

/-- Whose turn it is: the socket's inside a call, the sender's otherwise. -/
def RetryTee.turn (t : RetryTee) : TeeActor :=
  match t.run with
  | .calling _ _ => .writer
  | _ => .sender

/-- `WriteBatch` is called with something left. -/
def RetryTee.Calls (t : RetryTee) : Prop :=
  ∀ b off, t.run = .calling b off → off < b.msgs.length

/-- A step of the sender or the socket: it takes a batch, leaves, answers and lets go of
the batch in hand, or comes closer to that. -/
inductive RetryTee.Toil (t t' : RetryTee) : Prop where
  | received {b : TeeBatch} {rest : List TeeBatch} (hrun : t.run = .receiving)
      (hbatches : t.batches = b :: rest) (hnext : t'.run = .holding b) (hrest : t'.batches = rest)
      (hacked : t'.acked = t.acked)
  | left (hrun : t.run = .receiving) (hbatches : t.batches = []) (hnext : t'.run = .ended)
      (hrest : t'.batches = [])
  | released {b : TeeBatch} (hrun : t.run = .releasing b) (hnext : t'.run = .receiving)
      (hbatches : t'.batches = t.batches) (hacked : t'.acked = (t.release b).acked)
  | worked {b : TeeBatch} (hbatch : t.run.batch = some b) (hnext : t'.run.batch = some b)
      (hcost : t'.run.cost < t.run.cost) (hbatches : t'.batches = t.batches)
      (hacked : t'.acked = t.acked)

section Sender

variable {a : TeeActor} {t t' : RetryTee}

/-- An answer takes the loop of `writeBatchAll` on, or out. -/
theorem RetryTee.answered_cost (t : RetryTee) {b : TeeBatch} {off : Nat}
    (hleft : off < b.msgs.length) (count : Int) (err : Option WriteError) :
    (t.answered b off count err).run.cost < (RunPos.calling b off).cost := by
  cases err with
  | some err =>
      change 2 < 2 * (b.msgs.length - off) + 3
      omega
  | none =>
      by_cases hcount : 0 < count
      · have htook : 0 < clampSent count (b.msgs.length - off) :=
          clampSent_pos hcount (Nat.sub_pos_of_lt hleft)
        simp only [RetryTee.answered, hcount, ↓reduceIte, RunPos.cost]
        omega
      · simp only [RetryTee.answered, hcount, ↓reduceIte, RunPos.cost]
        omega

/-- A step of the sender's on the batch in hand. -/
theorem RetryTee.toil_worked {pos : RunPos} {b : TeeBatch} (hrun : t.run = pos)
    (hturn : ∀ b off, pos ≠ .calling b off) (hbatch : pos.batch = some b)
    (hnext : t'.run.batch = some b) (hcost : t'.run.cost < pos.cost)
    (hbatches : t'.batches = t.batches) (hacked : t'.acked = t.acked) :
    .sender = t.turn ∧ t.Toil t' := by
  subst hrun
  refine ⟨?_, .worked hbatch hnext hcost hbatches hacked⟩
  rw [turn]
  split
  · rename_i hcalling
    exact absurd hcalling (hturn _ _)
  · rfl

/-- What the sender and the socket do. -/
theorem RetryTee.Step.toil (hstep : Step a t t') (hcalls : t.Calls)
    (hactor : a = .sender ∨ a = .writer) : a = t.turn ∧ t.Toil t' := by
  cases hstep with
  | receive hrun hbatches => exact ⟨by simp [turn, hrun], .received hrun hbatches rfl rfl rfl⟩
  | leave hrun hbatches hchan => exact ⟨by simp [turn, hrun], .left hrun hbatches rfl hbatches⟩
  | @answer _ b off hrun count err =>
      exact ⟨by simp [turn, hrun], .worked (by simp [hrun, RunPos.batch])
        (t.answered_run b off count err).1
        (hrun ▸ t.answered_cost (hcalls b off hrun) count err) rfl rfl⟩
  | writeNothing hrun | write hrun | call hrun | drained hrun | missed hrun | sentAll hrun =>
      exact toil_worked hrun (by simp) rfl rfl (by simp [RunPos.cost]) rfl rfl
  | release hrun => exact ⟨by simp [turn, hrun], .released hrun rfl rfl rfl⟩
  | _ => rcases hactor with hactor | hactor <;> cases hactor

/-- The others leave the batch in hand alone, and may only add to the queue. -/
theorem RetryTee.Step.others (hstep : Step a t t') (hwired : t.Wired) (hrun : t.run ≠ .absent)
    (hsender : a ≠ .sender) (hwriter : a ≠ .writer) :
    t'.run = t.run ∧ (t'.batches = t.batches ∨
      ∃ b, t'.batches = t.batches ++ [b] ∧ t.Holds a ∧ t.closed = false) := by
  cases hstep with
  | flushStart hflush hclosed hstarted => exact absurd (hwired.absent.mp hstarted) hrun
  | @flushSend _ b hflush hchan hroom =>
      exact ⟨rfl, Or.inr ⟨b, rfl, ⟨b, Or.inr hflush⟩, (hwired.offering b hflush).2⟩⟩
  | waitSend hwait hchan hroom =>
      exact ⟨rfl, Or.inr ⟨_, rfl, Or.inr hwait, (hwired.sending _ hwait).2⟩⟩
  | closeShut => exact ⟨t.shut_frame.2.2.2.2.1, Or.inl t.shut_frame.2.2.2.2.2.1⟩
  | answer => exact absurd rfl hwriter
  | _ => first | exact ⟨rfl, Or.inl rfl⟩ | exact absurd rfl hsender

theorem RetryTee.Reachable.calls (hreach : t.Reachable) : t.Calls := by
  induction hreach with
  | new =>
      intro b off hrun
      cases hrun
  | @step a t t' hreach hstep ih =>
      intro b off hrun
      cases hstep with
      | call _ hleft =>
          cases hrun
          exact hleft
      | @answer _ _ _ _ count err =>
          cases err with
          | some err => cases hrun
          | none => by_cases hcount : 0 < count <;> simp [answered, hcount] at hrun
      | closeShut => exact ih b off (t.shut_frame.2.2.2.2.1.symm.trans hrun)
      | _ => first | exact ih b off hrun | cases hrun

/-- It is always somebody's turn to work, until the queue is empty. -/
theorem RetryTee.turn_enabled (hrun : t.run ≠ .absent) (hended : t.run ≠ .ended)
    (hbatches : t.batches ≠ [] ∨ t.chan = .closed ∨ t.run ≠ .receiving) :
    Enabled Step t.turn t := by
  cases hpos : t.run with
  | absent => exact absurd hpos hrun
  | ended => exact absurd hpos hended
  | receiving =>
      simp only [turn, hpos]
      cases hqueue : t.batches with
      | nil =>
          have hchan : t.chan = .closed := by
            rcases hbatches with hsome | hchan | hother
            · exact absurd hqueue hsome
            · exact hchan
            · exact absurd hpos hother
          exact ⟨_, .leave hpos hqueue hchan⟩
      | cons b rest => exact ⟨_, .receive hpos hqueue⟩
  | holding b =>
      simp only [turn, hpos]
      by_cases hmsgs : b.msgs = []
      · exact ⟨_, .writeNothing hpos hmsgs⟩
      · exact ⟨_, .write hpos hmsgs⟩
  | writing b off =>
      simp only [turn, hpos]
      rcases Nat.lt_or_ge off b.msgs.length with hleft | hdone
      · exact ⟨_, .call hpos hleft⟩
      · exact ⟨_, .drained hpos hdone⟩
  | calling b off =>
      simp only [turn, hpos]
      exact ⟨_, .answer hpos 0 none⟩
  | wrote b sent err =>
      simp only [turn, hpos]
      by_cases hshort : err ≠ none ∨ sent < b.msgs.length
      · exact ⟨_, .missed hpos hshort⟩
      · obtain ⟨hnone, hall⟩ := not_or.mp hshort
        obtain rfl := not_ne_iff.mp hnone
        exact ⟨_, .sentAll hpos (Nat.le_of_not_lt hall)⟩
  | releasing b =>
      simp only [turn, hpos]
      exact ⟨_, .release hpos⟩

theorem RetryTee.Step.acked_stays (hstep : Step a t t') {i : Nat} (hacked : t.acked i = true) :
    t'.acked i = true := by
  have hrelease : ∀ b, (t.release b).acked i = true := by
    intro b
    cases hack : b.ack with
    | none => simpa [RetryTee.release, hack] using hacked
    | some j =>
        by_cases hij : i = j
        · simp [RetryTee.release, hack, hij]
        · simpa [RetryTee.release, hack, Function.update_of_ne hij] using hacked
  cases hstep with
  | flushRelease => exact hrelease _
  | release => exact hrelease _
  | closeShut => exact (congrFun t.shut_frame.2.2.2.2.2.2.1 i).trans hacked
  | _ => exact hacked

/-- The answer to a wait is in the sender's hand or in the queue, at most so many of the
sender's steps away. -/
def RetryTee.Owes (t : RetryTee) (i r : Nat) : Prop :=
  (∃ b, t.run.batch = some b ∧ b.ack = some i ∧ t.run.cost ≤ r) ∨
    ∃ before b after, t.batches = before ++ b :: after ∧ b.ack = some i ∧
      t.run.cost + queueCost before + b.cost ≤ r

/-- The sender comes closer to the answer with every step. -/
theorem RetryTee.Owes.toil {i r : Nat} (howes : t.Owes i r) (htoil : t.Toil t') :
    t'.acked i = true ∨ ∃ less < r, t'.Owes i less := by
  rcases howes with ⟨b, hbatch, hack, hcost⟩ | ⟨before, b, after, hqueue, hack, hcost⟩
  · cases htoil with
    | received hrun | left hrun => simp [hrun, RunPos.batch] at hbatch
    | released hrun hnext hbatches hacked =>
        simp only [hrun, RunPos.batch, Option.some.injEq] at hbatch
        subst hbatch
        exact Or.inl (by simp [hacked, release, hack])
    | worked hbatch' hnext hless hbatches hacked =>
        obtain rfl := Option.some.inj (hbatch.symm.trans hbatch')
        exact Or.inr ⟨t'.run.cost, Nat.lt_of_lt_of_le hless hcost,
          Or.inl ⟨b, hnext, hack, le_refl _⟩⟩
  · cases htoil with
    | @received first rest hrun hbatches hnext hrest hacked =>
        rw [hbatches] at hqueue
        simp only [hrun, RunPos.cost] at hcost
        cases before with
        | nil =>
            obtain ⟨rfl, rfl⟩ := List.cons.inj hqueue
            refine Or.inr ⟨t'.run.cost, ?_, Or.inl ⟨first, ?_, hack, le_refl _⟩⟩
            · simp only [hnext, RunPos.cost, queueCost, TeeBatch.cost] at hcost ⊢
              omega
            · rw [hnext]
              rfl
        | cons head before =>
            obtain ⟨rfl, htail⟩ := List.cons.inj hqueue
            refine Or.inr ⟨t'.run.cost + queueCost before + b.cost, ?_,
              Or.inr ⟨before, b, after, hrest.trans htail, hack, le_refl _⟩⟩
            simp only [hnext, RunPos.cost, queueCost, TeeBatch.cost] at hcost ⊢
            omega
    | left hrun hbatches =>
        rw [hbatches] at hqueue
        exact absurd hqueue (by simp)
    | released hrun hnext hbatches hacked =>
        refine Or.inr ⟨t'.run.cost + queueCost before + b.cost, ?_,
          Or.inr ⟨before, b, after, hbatches.trans hqueue, hack, le_refl _⟩⟩
        simp only [hrun, hnext, RunPos.cost] at hcost ⊢
        omega
    | worked hbatch hnext hless hbatches hacked =>
        refine Or.inr ⟨t'.run.cost + queueCost before + b.cost, ?_,
          Or.inr ⟨before, b, after, hbatches.trans hqueue, hack, le_refl _⟩⟩
        omega

/-- The others do not move the answer. -/
theorem RetryTee.Owes.others {i r : Nat} (howes : t.Owes i r) (hrun : t'.run = t.run)
    {new : List TeeBatch} (hbatches : t'.batches = t.batches ++ new) : t'.Owes i r := by
  rcases howes with ⟨b, hbatch, hack, hcost⟩ | ⟨before, b, after, hqueue, hack, hcost⟩
  · exact Or.inl ⟨b, hrun ▸ hbatch, hack, hrun ▸ hcost⟩
  · refine Or.inr ⟨before, b, after ++ new, ?_, hack, hrun ▸ hcost⟩
    rw [hbatches, hqueue, List.append_assoc, List.cons_append]

theorem RetryTee.Owes.running {i r : Nat} (howes : t.Owes i r) (hwired : t.Wired) :
    t.run ≠ .absent ∧ t.run ≠ .ended ∧ (t.run = .receiving → t.batches ≠ []) := by
  rcases howes with ⟨b, hbatch, _⟩ | ⟨before, b, after, hqueue, _⟩
  · refine ⟨?_, ?_, ?_⟩ <;>
      · intro hrun
        simp [hrun, RunPos.batch] at hbatch
  · have hsome : t.batches ≠ [] := by simp [hqueue]
    exact ⟨fun hrun => hsome (hwired.unstarted (hwired.absent.mpr hrun)),
      fun hrun => hsome (hwired.ended hrun).2, fun _ => hsome⟩

/-- Nobody but the sender and the socket has a turn to work. -/
theorem RetryTee.ne_turn (hsender : a ≠ .sender) (hwriter : a ≠ .writer) : a ≠ t.turn := by
  rw [turn]
  split
  · exact hwriter
  · exact hsender

/-- One step on, a wait is answered or its answer is still owed, and closer if the sender
or the socket took the step. -/
theorem RetryTee.Owes.step {i r : Nat} (howes : t.Owes i r) (hreach : t.Reachable)
    (hstep : Step a t t') : t'.acked i = true ∨ (∃ less < r, t'.Owes i less) ∨
      a ≠ t.turn ∧ t'.Owes i r ∧ t'.turn = t.turn := by
  have hwired := hreach.orderly.wired
  by_cases hactor : a = .sender ∨ a = .writer
  · rcases howes.toil (hstep.toil hreach.calls hactor).2 with hacked | hless
    · exact Or.inl hacked
    · exact Or.inr (Or.inl hless)
  · obtain ⟨hsender, hwriter⟩ := not_or.mp hactor
    obtain ⟨hrun, hbatches⟩ := hstep.others hwired (howes.running hwired).1 hsender hwriter
    refine Or.inr (Or.inr ⟨ne_turn hsender hwriter, ?_, by simp only [turn, hrun]⟩)
    rcases hbatches with hsame | ⟨b, hmore, _⟩
    · exact howes.others hrun (hsame.trans (List.append_nil _).symm)
    · exact howes.others hrun hmore

/-- A wait that awaits its answer has it, or is owed it. -/
theorem RetryTee.Reachable.owes (hreach : t.Reachable) {i : Nat} (hwait : t.waits i = .awaiting) :
    t.acked i = true ∨ ∃ r, t.Owes i r := by
  induction hreach with
  | new => cases hwait
  | @step a t t' hreach hstep ih =>
      by_cases hself : a = .waiter i
      · subst hself
        cases hstep with
        | waitSend => exact Or.inr ⟨_, Or.inr ⟨t.batches, _, [], rfl, rfl, le_refl _⟩⟩
        | waitPanic hsending => exact absurd (hsending.symm.trans hwait) (by simp)
        | _ => simp [RetryTee.setWait] at hwait
      · rcases hstep.waits_cases hself with hsame | ⟨_, hlocking⟩
        · rcases ih (hsame ▸ hwait) with hacked | ⟨r, howes⟩
          · exact Or.inl (hstep.acked_stays hacked)
          · rcases howes.step hreach hstep with hacked | ⟨less, _, hless⟩ | ⟨_, hsame, _⟩
            · exact Or.inl hacked
            · exact Or.inr ⟨less, hless⟩
            · exact Or.inr ⟨r, hsame⟩
        · exact absurd (hlocking.symm.trans hwait) (by simp)

/-- While a wait sends, it is the only one to add to the queue. -/
theorem RetryTee.Step.sending (hstep : Step a t t') (hreach : t.Reachable) {i : Nat}
    (hwait : t.waits i = .sending) :
    (a = .waiter i ∧ t.batches.length < teeQueueDepth ∧ t'.waits i = .awaiting ∧ t'.mu = none) ∨
      a ≠ .waiter i ∧ t'.waits i = .sending ∧
        (a = t.turn ∧ t.Toil t' ∨
          a ≠ t.turn ∧ t'.turn = t.turn ∧ t'.run = t.run ∧ t'.batches = t.batches) := by
  obtain ⟨hguarded, hwired, _⟩ := hreach.orderly
  by_cases hself : a = .waiter i
  · subst hself
    cases hstep with
    | waitSend _ _ hroom => exact Or.inl ⟨rfl, hroom, Function.update_self i _ _, rfl⟩
    | waitPanic _ hchan =>
        exact absurd (hwired.of_closed hchan).2 (by simp [(hwired.sending i hwait).2])
    | waitLock hpos | waitSkip hpos | waitOffer hpos | waitReturn hpos =>
        exact absurd (hpos.symm.trans hwait) (by simp)
  · have hsame : t'.waits i = .sending := by
      rcases hstep.waits_cases hself with hsame | ⟨hnone, _⟩
      · exact hsame.trans hwait
      · exact absurd (hnone.symm.trans hwait) (by simp)
    refine Or.inr ⟨hself, hsame, ?_⟩
    by_cases hactor : a = .sender ∨ a = .writer
    · exact Or.inl (hstep.toil hreach.calls hactor)
    · obtain ⟨hsender, hwriter⟩ := not_or.mp hactor
      have hrunning : t.run ≠ .absent := fun habsent =>
        absurd (hwired.absent.mpr habsent) (by simp [(hwired.sending i hwait).1])
      obtain ⟨hrun, hkept | ⟨_, _, hholds, _⟩⟩ := hstep.others hwired hrunning hsender hwriter
      · exact Or.inr ⟨ne_turn hsender hwriter, by simp only [turn, hrun], hrun, hkept⟩
      · exact absurd (hguarded.exclusive (c := .waiter i) hholds (Or.inr hwait)) hself

/-- The sender takes batches off the queue and adds none. -/
theorem RetryTee.Toil.batches_le (htoil : t.Toil t') : t'.batches.length ≤ t.batches.length := by
  cases htoil with
  | received _ hbatches _ hrest =>
      rw [hbatches, hrest]
      exact Nat.le_succ _
  | left _ hbatches _ hrest => rw [hbatches, hrest]
  | released _ _ hbatches => rw [hbatches]
  | worked _ _ _ hbatches => rw [hbatches]

end Sender

/-- A fair schedule of a tee from its construction on.  A goroutine that can go on does,
`WriteBatch` returns, and the mutex keeps nobody waiting for ever. -/
structure RetryTee.Fair (ρ : Run RetryTee.Step) : Prop where
  start : ρ.state 0 = .new
  egress : ρ.WeaklyFair .egress
  sender : ρ.WeaklyFair .sender
  writes : ρ.WeaklyFair .writer
  waiter : ∀ i, ρ.StronglyFair (.waiter i)
  closer : ∀ i, ρ.StronglyFair (.closer i)

section Progress

variable {ρ : Run RetryTee.Step}

theorem RetryTee.Fair.reachable (hfair : RetryTee.Fair ρ) (n : Nat) : (ρ.state n).Reachable :=
  Run.invariant (hfair.start ▸ .new) (fun _ _ _ hreach hstep => .step hreach hstep) n

theorem RetryTee.Fair.turn (hfair : RetryTee.Fair ρ) (t : RetryTee) : ρ.WeaklyFair t.turn := by
  rw [RetryTee.turn]
  split
  · exact hfair.writes
  · exact hfair.sender

/-- The answer a wait is owed comes. -/
theorem RetryTee.Fair.answered (hfair : RetryTee.Fair ρ) (i r : Nat) :
    ρ.Leads (fun t => t.Owes i r) (fun t => t.acked i = true) := by
  apply Run.leads_of_rank (A := fun r t => t.Owes i r) RetryTee.turn hfair.turn
  · intro n r howes
    obtain ⟨habsent, hended, hbatches⟩ := howes.running (hfair.reachable n).orderly.wired
    apply RetryTee.turn_enabled habsent hended
    by_cases hrun : (ρ.state n).run = .receiving
    · exact Or.inl (hbatches hrun)
    · exact Or.inr (Or.inr hrun)
  · intro n r p howes hmover
    exact howes.step (hfair.reachable n) (ρ.moves n p hmover)

/-- A `wait` that can go on whenever `F` holds does so, by a step of its own. -/
theorem RetryTee.Fair.wait_leads (hfair : RetryTee.Fair ρ) {i : Nat} {pos : WaitPos}
    (hpos : pos ≠ .none) {B F : RetryTee → Prop} (hagain : ∀ n, ∃ m, n ≤ m ∧ F (ρ.state m))
    (henabled : ∀ t : RetryTee, t.waits i = pos → F t → Enabled RetryTee.Step (.waiter i) t)
    (hown : ∀ t t' : RetryTee, t.waits i = pos → t.Step (.waiter i) t' → B t') :
    ρ.Leads (fun t => t.waits i = pos) B := by
  apply (hfair.waiter i).leads hagain
  · exact fun n => henabled _
  · intro n q hwait hmover
    have hstep := ρ.moves n q hmover
    by_cases hself : q = .waiter i
    · subst hself
      exact Or.inl (hown _ _ hwait hstep)
    · rcases hstep.waits_cases hself with hsame | ⟨hnone, _⟩
      · exact Or.inr ⟨hself, hsame.trans hwait⟩
      · exact absurd (hwait.symm.trans hnone) hpos

/-- A `close` that can go on whenever `F` holds does so, by a step of its own. -/
theorem RetryTee.Fair.close_leads (hfair : RetryTee.Fair ρ) {i : Nat} {pos : ClosePos}
    (hpos : pos ≠ .none) {B F : RetryTee → Prop} (hagain : ∀ n, ∃ m, n ≤ m ∧ F (ρ.state m))
    (henabled : ∀ t : RetryTee, t.closes i = pos → F t → Enabled RetryTee.Step (.closer i) t)
    (hown : ∀ t t' : RetryTee, t.closes i = pos → t.Step (.closer i) t' → B t') :
    ρ.Leads (fun t => t.closes i = pos) B := by
  apply (hfair.closer i).leads hagain
  · exact fun n => henabled _
  · intro n q hclose hmover
    have hstep := ρ.moves n q hmover
    by_cases hself : q = .closer i
    · subst hself
      exact Or.inl (hown _ _ hclose hstep)
    · rcases hstep.closes_cases hself with hsame | ⟨hnone, _⟩
      · exact Or.inr ⟨hself, hsame.trans hclose⟩
      · exact absurd (hclose.symm.trans hnone) hpos

/-- `flush` goes on from where it is by a step of its own. -/
theorem RetryTee.Fair.flush_leads (hfair : RetryTee.Fair ρ) {pos : FlushPos} (hpos : pos ≠ .idle)
    {B : RetryTee → Prop}
    (henabled : ∀ t : RetryTee, t.Wired → t.flush = pos → Enabled RetryTee.Step .egress t)
    (hown : ∀ t t' : RetryTee, t.Wired → t.flush = pos → t.Step .egress t' → B t') :
    ρ.Leads (fun t => t.flush = pos) B := by
  apply hfair.egress.leads
  · exact fun n hflush => henabled _ (hfair.reachable n).orderly.wired hflush
  · intro n q hflush hmover
    have hstep := ρ.moves n q hmover
    by_cases hself : q = .egress
    · subst hself
      exact Or.inl (hown _ _ (hfair.reachable n).orderly.wired hflush hstep)
    · rcases hstep.flush_cases hself with hsame | ⟨hidle, _⟩
      · exact Or.inr ⟨hself, hsame.trans hflush⟩
      · exact absurd (hflush.symm.trans hidle) hpos

/-- A `wait` that sends finds room: the sender finishes what it has in hand, and takes the
next batch off the full queue. -/
theorem RetryTee.Fair.room (hfair : RetryTee.Fair ρ) (i : Nat) :
    ρ.Leads (fun t => t.waits i = .sending)
      (fun t => t.waits i = .sending ∧ t.batches.length < teeQueueDepth) := by
  have hdrains : ∀ r, ρ.Leads
      (fun t => t.waits i = .sending ∧ t.batches.length = teeQueueDepth ∧ t.run.cost ≤ r)
      (fun t => t.waits i = .sending ∧ t.batches.length < teeQueueDepth) := by
    apply Run.leads_of_rank (A := fun r t =>
      t.waits i = .sending ∧ t.batches.length = teeQueueDepth ∧ t.run.cost ≤ r)
      RetryTee.turn hfair.turn
    · rintro n r ⟨hwait, hfull, _⟩
      have hwired := (hfair.reachable n).orderly.wired
      obtain ⟨hstarted, hclosed⟩ := hwired.sending i hwait
      apply RetryTee.turn_enabled
      · exact fun habsent => absurd (hwired.absent.mpr habsent) (by simp [hstarted])
      · exact fun hended => absurd (hwired.ended hended).1 (by simp [hclosed])
      · exact Or.inl fun hnil => absurd hfull (by simp [hnil, teeQueueDepth])
    · rintro n r p ⟨hwait, hfull, hcost⟩ hmover
      have hstep := ρ.moves n p hmover
      rcases hstep.sending (hfair.reachable n) hwait with
        ⟨_, hroom, _⟩ | ⟨_, hsame, ⟨_, htoil⟩ | ⟨hother, hturn, hrun, hbatches⟩⟩
      · exact absurd hfull (Nat.ne_of_lt hroom)
      · cases htoil with
        | received hrun hbatches hnext hrest =>
            refine Or.inl ⟨hsame, ?_⟩
            rw [hrest, ← hfull, hbatches]
            exact Nat.lt_succ_self _
        | left hrun hbatches => exact absurd hfull (by simp [hbatches, teeQueueDepth])
        | released hrun hnext hbatches =>
            refine Or.inr (Or.inl ⟨0, ?_, hsame, hbatches ▸ hfull, by simp [hnext, RunPos.cost]⟩)
            rw [hrun] at hcost
            exact hcost
        | worked _ _ hless hbatches =>
            exact Or.inr (Or.inl ⟨_, Nat.lt_of_lt_of_le hless hcost, hsame, hbatches ▸ hfull,
              le_refl _⟩)
      · exact Or.inr (Or.inr ⟨hother, ⟨hsame, hbatches ▸ hfull, hrun ▸ hcost⟩, hturn⟩)
  intro n hwait
  have hbounded := (hfair.reachable n).orderly.wired.bounded
  rcases Nat.lt_or_eq_of_le hbounded with hroom | hfull
  · exact ⟨n, le_refl n, hwait, hroom⟩
  · exact hdrains _ n ⟨hwait, hfull, le_refl _⟩

/-- A `wait` that sends gets its batch into the queue, and gives the mutex back. -/
theorem RetryTee.Fair.wait_sends (hfair : RetryTee.Fair ρ) (i : Nat) :
    ρ.Leads (fun t => t.waits i = .sending) (fun t => t.waits i = .awaiting ∧ t.mu = none) := by
  apply (hfair.room i).trans
  apply (hfair.waiter i).weak.leads
  · rintro n ⟨hwait, hroom⟩
    have hwired := (hfair.reachable n).orderly.wired
    obtain ⟨hstarted, hclosed⟩ := hwired.sending i hwait
    exact ⟨_, .waitSend hwait (hwired.opened hstarted hclosed) hroom⟩
  · rintro n q ⟨hwait, hroom⟩ hmover
    rcases (ρ.moves n q hmover).sending (hfair.reachable n) hwait with
      ⟨_, _, hsent⟩ | ⟨hself, hsame, ⟨_, htoil⟩ | ⟨_, _, _, hbatches⟩⟩
    · exact Or.inl hsent
    · exact Or.inr ⟨hself, hsame, Nat.lt_of_le_of_lt htoil.batches_le hroom⟩
    · exact Or.inr ⟨hself, hsame, hbatches ▸ hroom⟩

/-- Under the mutex a `wait` sees that there is nothing to wait for, or sends. -/
theorem RetryTee.Fair.wait_checks (hfair : RetryTee.Fair ρ) (i : Nat) :
    ρ.Leads (fun t => t.waits i = .locked)
      (fun t => t.waits i = .returned ∧ t.mu = none ∨ t.waits i = .sending) := by
  apply hfair.wait_leads (F := fun _ => True) (by simp) fun n => ⟨n, le_refl n, trivial⟩
  · intro t hwait _
    by_cases hopen : t.started = true ∧ t.closed = false
    · exact ⟨_, .waitOffer hwait hopen.1 hopen.2⟩
    · refine ⟨_, .waitSkip hwait ?_⟩
      rw [not_and_or, Bool.not_eq_true, Bool.not_eq_false] at hopen
      exact hopen
  · intro t t' hwait hstep
    cases hstep <;> simp_all [RetryTee.setWait]

theorem RetryTee.Fair.close_shuts (hfair : RetryTee.Fair ρ) (i : Nat) :
    ρ.Leads (fun t => t.closes i = .locked)
      (fun t => ∃ started, t.closes i = .unlocking started) := by
  apply hfair.close_leads (F := fun _ => True) (by simp) fun n => ⟨n, le_refl n, trivial⟩
  · exact fun t hclose _ => ⟨_, .closeShut hclose⟩
  · intro t t' hclose hstep
    cases hstep <;> simp_all [RetryTee.setClose]

theorem RetryTee.Fair.close_unlocks (hfair : RetryTee.Fair ρ) (i : Nat) :
    ρ.Leads (fun t => ∃ started, t.closes i = .unlocking started)
      (fun t => (t.closes i = .returned ∨ t.closes i = .awaiting) ∧ t.mu = none) := by
  apply Run.leads_of_exists
  intro started
  apply hfair.close_leads (F := fun _ => True) (by simp) fun n => ⟨n, le_refl n, trivial⟩
  · intro t hclose _
    cases started with
    | true => exact ⟨_, .closeWait hclose⟩
    | false => exact ⟨_, .closeSkip hclose⟩
  · intro t t' hclose hstep
    cases hstep <;> simp_all [RetryTee.setClose]

theorem RetryTee.Fair.flush_offers (hfair : RetryTee.Fair ρ) (b : TeeBatch) :
    ρ.Leads (fun t => t.flush = .locked b) (fun t => t.mu = none ∨ t.flush = .offering b) := by
  apply hfair.flush_leads (by simp)
  · intro t _ hflush
    cases hclosed : t.closed with
    | true => exact ⟨_, .flushClosed hflush hclosed⟩
    | false =>
        cases hstarted : t.started with
        | true => exact ⟨_, .flushStarted hflush hclosed hstarted⟩
        | false => exact ⟨_, .flushStart hflush hclosed hstarted⟩
  · intro t t' _ hflush hstep
    cases hstep <;> simp_all

theorem RetryTee.Fair.flush_unlocks (hfair : RetryTee.Fair ρ) (b : TeeBatch) :
    ρ.Leads (fun t => t.flush = .offering b) (fun t => t.mu = none) := by
  apply hfair.flush_leads (by simp)
  · intro t hwired hflush
    obtain ⟨hstarted, hclosed⟩ := hwired.offering b hflush
    have hopen := hwired.opened hstarted hclosed
    rcases Nat.lt_or_ge t.batches.length teeQueueDepth with hroom | hfull
    · exact ⟨_, .flushSend hflush hopen hroom⟩
    · exact ⟨_, .flushFull hflush (Or.inr ⟨hopen, hfull⟩)⟩
  · intro t t' hwired hflush hstep
    cases hstep with
    | flushPanic _ hchan =>
        exact absurd (hwired.of_closed hchan).2 (by simp [(hwired.offering b hflush).2])
    | _ => simp_all

/-- Whoever holds the mutex gives it back. -/
theorem RetryTee.Fair.mutex_free (hfair : RetryTee.Fair ρ) (n : Nat) :
    ∃ m, n ≤ m ∧ (ρ.state m).mu = none := by
  cases hmu : (ρ.state n).mu with
  | none => exact ⟨n, le_refl n, hmu⟩
  | some a =>
      have hholds := ((hfair.reachable n).orderly.guarded a).mp hmu
      cases a with
      | egress =>
          obtain ⟨b, hlocked | hoffering⟩ := hholds
          · exact (hfair.flush_offers b).trans_or (hfair.flush_unlocks b) n hlocked
          · exact hfair.flush_unlocks b n hoffering
      | waiter i =>
          have hsends := (hfair.wait_sends i).mono fun _ hsent => hsent.2
          rcases hholds with hlocked | hsending
          · have hchecks := (hfair.wait_checks i).mono fun _ => Or.imp_left And.right
            exact hchecks.trans_or hsends n hlocked
          · exact hsends n hsending
      | closer i =>
          have hunlocks := (hfair.close_unlocks i).mono fun _ hunlocked => hunlocked.2
          rcases hholds with hlocked | hunlocking
          · exact (hfair.close_shuts i).trans hunlocks n hlocked
          · exact hunlocks n hunlocking
      | caller | sender | writer => exact hholds.elim

theorem RetryTee.Fair.wait_locks (hfair : RetryTee.Fair ρ) (i : Nat) :
    ρ.Leads (fun t => t.waits i = .locking) (fun t => t.waits i = .locked) := by
  apply hfair.wait_leads (F := fun t => t.mu = none) (by simp) hfair.mutex_free
  · exact fun t hwait hfree => ⟨_, .waitLock hwait hfree⟩
  · intro t t' hwait hstep
    cases hstep <;> simp_all [RetryTee.setWait]

theorem RetryTee.Fair.close_locks (hfair : RetryTee.Fair ρ) (i : Nat) :
    ρ.Leads (fun t => t.closes i = .locking) (fun t => t.closes i = .locked) := by
  apply hfair.close_leads (F := fun t => t.mu = none) (by simp) hfair.mutex_free
  · exact fun t hclose hfree => ⟨_, .closeLock hclose hfree⟩
  · intro t t' hclose hstep
    cases hstep <;> simp_all [RetryTee.setClose]

/-- A `wait` in the queue is answered and returns. -/
theorem RetryTee.Fair.wait_ends (hfair : RetryTee.Fair ρ) (i : Nat) :
    ρ.Leads (fun t => t.waits i = .awaiting) (fun t => t.waits i = .returned) := by
  intro n hwait
  obtain ⟨m, hm, hacked⟩ : ∃ m, n ≤ m ∧ (ρ.state m).acked i = true := by
    rcases (hfair.reachable n).owes hwait with hacked | ⟨r, howes⟩
    · exact ⟨n, le_refl n, hacked⟩
    · exact hfair.answered i r n howes
  have hstays := Run.again (A := fun t : RetryTee => t.acked i = true) hacked
    fun _ _ _ hacked hstep => hstep.acked_stays hacked
  have hreturns : ρ.Leads (fun t => t.waits i = .awaiting) (fun t => t.waits i = .returned) := by
    apply hfair.wait_leads (F := fun t => t.acked i = true) (by simp) hstays
    · exact fun t hpos hacked => ⟨_, .waitReturn hpos hacked⟩
    · intro t t' hpos hstep
      cases hstep <;> simp_all [RetryTee.setWait]
  exact hreturns n hwait

/-- The sender of a closed tee works its queue off and ends. -/
theorem RetryTee.Fair.sender_ends (hfair : RetryTee.Fair ρ) (r : Nat) :
    ρ.Leads (fun t => t.closed = true ∧ t.started = true ∧ t.run ≠ .ended ∧
        t.run.cost + queueCost t.batches ≤ r)
      (fun t => t.closed = true ∧ t.run = .ended) := by
  apply Run.leads_of_rank (A := fun r t => t.closed = true ∧ t.started = true ∧
    t.run ≠ .ended ∧ t.run.cost + queueCost t.batches ≤ r) RetryTee.turn hfair.turn
  · rintro n r ⟨hclosed, hstarted, hended, _⟩
    have hwired := (hfair.reachable n).orderly.wired
    apply RetryTee.turn_enabled _ hended (Or.inr (Or.inl (hwired.chan_closed hstarted hclosed)))
    exact fun habsent => absurd (hwired.absent.mpr habsent) (by simp [hstarted])
  · rintro n r p ⟨hclosed, hstarted, hended, hcost⟩ hmover
    have hreach := hfair.reachable n
    have hwired := hreach.orderly.wired
    have hstep := ρ.moves n p hmover
    obtain ⟨hclosed', hsame⟩ := hstep.closed_stays hclosed
    have hstarted' := hsame.trans hstarted
    by_cases hactor : p = .sender ∨ p = .writer
    · cases (hstep.toil hreach.calls hactor).2 with
      | received hrun hbatches hnext hrest =>
          refine Or.inr (Or.inl ⟨_, ?_, hclosed', hstarted', by simp [hnext], le_refl _⟩)
          simp only [hrun, hbatches, hnext, hrest, RunPos.cost, queueCost, TeeBatch.cost]
            at hcost ⊢
          omega
      | left _ _ hnext => exact Or.inl ⟨hclosed', hnext⟩
      | released hrun hnext hbatches =>
          refine Or.inr (Or.inl ⟨_, ?_, hclosed', hstarted', by simp [hnext], le_refl _⟩)
          simp only [hrun, hnext, hbatches, RunPos.cost] at hcost ⊢
          omega
      | worked _ hbatch hless hbatches =>
          refine Or.inr (Or.inl ⟨_, ?_, hclosed', hstarted', ?_, le_refl _⟩)
          · rw [hbatches]
            omega
          · intro hrun
            simp [hrun, RunPos.batch] at hbatch
    · obtain ⟨hsender, hwriter⟩ := not_or.mp hactor
      have hrunning : (ρ.state n).run ≠ .absent := fun habsent =>
        absurd (hwired.absent.mpr habsent) (by simp [hstarted])
      obtain ⟨hrun, hkept | ⟨_, _, _, hopen⟩⟩ := hstep.others hwired hrunning hsender hwriter
      · refine Or.inr (Or.inr ⟨RetryTee.ne_turn hsender hwriter, ?_, ?_⟩)
        · exact ⟨hclosed', hstarted', hrun ▸ hended, by rw [hrun, hkept]; exact hcost⟩
        · simp only [RetryTee.turn, hrun]
      · exact absurd hclosed (by simp [hopen])

/-- A `close` that waits for the sender returns. -/
theorem RetryTee.Fair.close_ends (hfair : RetryTee.Fair ρ) (i : Nat) :
    ρ.Leads (fun t => t.closes i = .awaiting) (fun t => t.closes i = .returned) := by
  intro n hclose
  have hrelies := (hfair.reachable n).orderly.closes i
  rw [hclose] at hrelies
  obtain ⟨m, hm, hended⟩ : ∃ m, n ≤ m ∧ (ρ.state m).closed = true ∧ (ρ.state m).run = .ended := by
    by_cases hended : (ρ.state n).run = .ended
    · exact ⟨n, le_refl n, hrelies.1, hended⟩
    · exact hfair.sender_ends _ n ⟨hrelies.1, hrelies.2, hended, le_refl _⟩
  have hstays := Run.again (A := fun t : RetryTee => t.closed = true ∧ t.run = .ended) hended
    fun _ _ _ hended hstep =>
      ⟨(hstep.closed_stays hended.1).1, hstep.ended_stays hended.1 hended.2⟩
  have hreturns : ρ.Leads (fun t => t.closes i = .awaiting) (fun t => t.closes i = .returned) := by
    apply hfair.close_leads (F := fun t => t.closed = true ∧ t.run = .ended) (by simp) hstays
    · exact fun t hpos hended => ⟨_, .closeReturn hpos hended.2⟩
    · intro t t' hpos hstep
      cases hstep <;> simp_all [RetryTee.setClose]
  exact hreturns n hclose

theorem RetryTee.Fair.wait_returns (hfair : RetryTee.Fair ρ) {i n : Nat}
    (hcalled : (ρ.state n).waits i ≠ .none) : ∃ m, n ≤ m ∧ (ρ.state m).waits i = .returned := by
  have hsending := ((hfair.wait_sends i).mono fun _ hsent => hsent.1).trans (hfair.wait_ends i)
  have hlocked := ((hfair.wait_checks i).mono fun _ => Or.imp_left And.left).trans_or hsending
  cases hwait : (ρ.state n).waits i with
  | none => exact absurd hwait hcalled
  | locking => exact ((hfair.wait_locks i).trans hlocked) n hwait
  | locked => exact hlocked n hwait
  | sending => exact hsending n hwait
  | awaiting => exact hfair.wait_ends i n hwait
  | returned => exact ⟨n, le_refl n, hwait⟩

theorem RetryTee.Fair.close_returns (hfair : RetryTee.Fair ρ) {i n : Nat}
    (hcalled : (ρ.state n).closes i ≠ .none) : ∃ m, n ≤ m ∧ (ρ.state m).closes i = .returned := by
  have hunlocking := ((hfair.close_unlocks i).mono fun _ hunlocked => hunlocked.1).trans_or
    (hfair.close_ends i)
  have hlocked := (hfair.close_shuts i).trans hunlocking
  cases hclose : (ρ.state n).closes i with
  | none => exact absurd hclose hcalled
  | locking => exact ((hfair.close_locks i).trans hlocked) n hclose
  | locked => exact hlocked n hclose
  | unlocking started => exact hunlocking n ⟨started, hclose⟩
  | awaiting => exact hfair.close_ends i n hclose
  | returned => exact ⟨n, le_refl n, hclose⟩

end Progress

/-- Every copy appended to a tee is written, counted as failed (in 64 bits) or still on its
way, and those written are the appended ones in order, byte for byte; the channel is never
misused, and closed once at most; once a `close` has returned the queue is empty and a
flush fails its whole batch; and with a fair schedule and a socket that answers, every
`wait` and every `close` returns. -/
theorem tee_conservation :
    (∀ t : RetryTee, t.Reachable →
      t.appended.length = t.written.length + t.failed + t.pending.length ∧
      (t.appended.length < 2 ^ 64 → t.Failed.toNat = t.failed) ∧
      t.written.Sublist t.appended ∧ t.panicked = false ∧ t.closings ≤ 1 ∧
      ∀ i, t.closes i = .returned → t.batches = [] ∧
        ∀ t', t.FlushCall t' → t'.flush = .idle → t'.failed = t.failed + t.msgs.length) ∧
    ∀ ρ : Run RetryTee.Step, RetryTee.Fair ρ → ∀ i n,
      ((ρ.state n).waits i ≠ .none → ∃ m, n ≤ m ∧ (ρ.state m).waits i = .returned) ∧
      ((ρ.state n).closes i ≠ .none → ∃ m, n ≤ m ∧ (ρ.state m).closes i = .returned) := by
  constructor
  · intro t hreach
    have hbooks := hreach.books
    have horderly := hreach.orderly
    refine ⟨hbooks.count, fun hfew => UInt64.toNat_ofNat_of_lt' ?_,
      (List.sublist_append_left _ _).trans hbooks.order, horderly.wired.calm, ?_, ?_⟩
    · have hcount := hbooks.count
      exact lt_of_le_of_lt (by omega) hfew
    · rw [horderly.wired.closings]
      split <;> decide
    · intro i hclose
      refine ⟨horderly.queue_empty hclose, ?_⟩
      intro t' hcall hdone
      exact hcall.failed hreach hclose hdone
  · intro ρ hfair i n
    exact ⟨hfair.wait_returns, hfair.close_returns⟩

/-- Where nobody is in a call and the sender has ended, only a new call moves. -/
theorem RetryTee.settled {t : RetryTee} (hflush : t.flush = .idle) (hrun : t.run = .ended)
    (hwaits : ∀ i, t.waits i = .none ∨ t.waits i = .returned)
    (hcloses : ∀ i, t.closes i = .none ∨ t.closes i = .returned) {a : TeeActor}
    (ha : a ≠ .caller) : ¬ Enabled RetryTee.Step a t := by
  rintro ⟨t', hstep⟩
  cases a with
  | caller => exact ha rfl
  | waiter i =>
      have hwait := hwaits i
      cases hstep <;> simp_all
  | closer i =>
      have hclose := hcloses i
      cases hstep <;> simp_all
  | _ => cases hstep <;> simp_all

/-- A tee after one copy, one `wait` and one `close`. -/
def quietTee : RetryTee :=
  { RetryTee.new with
    started := true
    closed := true
    chan := .closed
    run := .ended
    waits := Function.update (fun _ => .none) 0 .returned
    acked := Function.update (fun _ => false) 0 true
    closes := Function.update (fun _ => .none) 0 .returned
    heap := Function.update (fun _ => []) 0 [1, 2]
    bufPool := [0]
    fresh := 1
    appended := [[1, 2]]
    written := [[1, 2]]
    closings := 1 }

theorem quietTee_path : Path RetryTee.Step .new quietTee := by
  have hcopied : [(1 : UInt8), 2].length ≤ teeBufSize := by decide
  rw [RetryTee.new]
  refine .head (.callWait (i := 0) rfl) (.head (.append rfl hcopied .made) ?_)
  dsimp only [RetryTee.setWait, RetryTee.copied]
  refine .head (.flush rfl (List.cons_ne_nil _ _)) (.head (.flushLock rfl rfl) ?_)
  dsimp only
  refine .head (.flushStart rfl rfl rfl) (.head (.flushSend rfl rfl (by decide)) ?_)
  dsimp only
  refine .head (.waitLock (i := 0) rfl rfl) (.head (.waitOffer (i := 0) rfl rfl rfl) ?_)
  dsimp only [RetryTee.setWait]
  refine .head (.waitSend (i := 0) rfl rfl (by decide)) (.head (.receive rfl rfl) ?_)
  dsimp only [RetryTee.setWait]
  refine .head (.write rfl (List.cons_ne_nil _ _)) (.head (.call rfl (by decide)) ?_)
  dsimp only
  refine .head (.answer rfl 1 none) ?_
  dsimp only [RetryTee.answered]
  refine .head (.drained rfl (by decide)) (.head (.sentAll rfl (by decide)) ?_)
  dsimp only
  refine .head (.release rfl) (.head (.receive rfl rfl) ?_)
  dsimp only [RetryTee.release]
  refine .head (.writeNothing rfl rfl) (.head (.release rfl) ?_)
  dsimp only [RetryTee.release]
  refine .head (.waitReturn (i := 0) rfl rfl) (.head (.callClose (i := 0) rfl) ?_)
  dsimp only [RetryTee.setWait, RetryTee.setClose]
  refine .head (.closeLock (i := 0) rfl rfl) (.head (.closeShut (i := 0) rfl) ?_)
  simp only [RetryTee.setClose, RetryTee.shut, Bool.false_eq_true, ↓reduceIte]
  refine .head (.closeWait (i := 0) rfl) (.head (.leave rfl rfl rfl) ?_)
  dsimp only [RetryTee.setClose]
  refine .head (.closeReturn (i := 0) rfl rfl) ?_
  dsimp only [RetryTee.setClose]
  simp only [Function.update_idem]
  exact .refl _

theorem tee_conservation_sample :
    ∃ (ρ : Run RetryTee.Step) (n : Nat), RetryTee.Fair ρ ∧ ρ.state n = quietTee ∧
      quietTee.appended.length =
        quietTee.written.length + quietTee.failed + quietTee.pending.length ∧
      quietTee.Failed.toNat = quietTee.failed ∧
      quietTee.written.Sublist quietTee.appended ∧ quietTee.batches = [] ∧
      (∃ m, n ≤ m ∧ (ρ.state m).waits 0 = .returned) ∧
      ∃ m, n ≤ m ∧ (ρ.state m).closes 0 = .returned := by
  obtain ⟨ρ, n, hstart, hlast⟩ := quietTee_path.exists_run
  have hupdate : ∀ {α : Type} (before after : α) (i : Nat),
      Function.update (fun _ => before) 0 after i = before ∨
        Function.update (fun _ => before) 0 after i = after := by
    intro α before after i
    by_cases hi : i = 0
    · exact Or.inr (hi ▸ Function.update_self _ _ _)
    · exact Or.inl (Function.update_of_ne hi _ _)
  have hsettled : ∀ a, a ≠ .caller → ∀ m, n ≤ m → ¬ Enabled RetryTee.Step a (ρ.state m) := by
    intro a ha m hm
    rw [hlast m hm]
    exact RetryTee.settled rfl rfl (hupdate _ _) (hupdate _ _) ha
  have hstrong : ∀ a, a ≠ .caller → ρ.StronglyFair a :=
    fun a ha => Run.stronglyFair_of_settled (hsettled a ha)
  have hfair : RetryTee.Fair ρ :=
    ⟨hstart, (hstrong _ (by simp)).weak, (hstrong _ (by simp)).weak, (hstrong _ (by simp)).weak,
      fun i => hstrong _ (by simp), fun i => hstrong _ (by simp)⟩
  have hquiet : ρ.state n = quietTee := hlast n (le_refl n)
  have hreach : quietTee.Reachable := hquiet ▸ hfair.reachable n
  obtain ⟨hcount, hwidth, horder, _, _, hclosed⟩ := tee_conservation.1 quietTee hreach
  obtain ⟨hwait, hclose⟩ := tee_conservation.2 ρ hfair 0 n
  exact ⟨ρ, n, hfair, hquiet, hcount, hwidth (by decide), horder, (hclosed 0 rfl).1,
    hwait (hquiet ▸ by simp [quietTee]), hclose (hquiet ▸ by simp [quietTee])⟩

end ShardProxy
