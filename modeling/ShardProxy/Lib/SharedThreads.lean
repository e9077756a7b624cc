/-
Threads that share a state.  Each stands at a point of its program; a step looks at the
shared state, may change it, and moves the thread on.  The threads take turns in any
order.  What a thread knows about the state is stable if no step of another thread can
undo it, and what the steps add to a tally is what the threads' positions say they added.
-/
import Mathlib.Algebra.BigOperators.Group.Finset.Basic
import Mathlib.Data.Fintype.Basic
import Mathlib.Tactic.Abel

namespace SharedThreads

universe u v w

variable {I : Type u} {P : Type v} {S : Type w} [DecidableEq I]

/-- The shared state, and where each thread stands. -/
structure Config (I : Type u) (P : Type v) (S : Type w) where
  shared : S
  pos : I → P

/-- A thread's turn: its next step, or nothing if it waits or has ended. -/
def Config.turn (step : I → P → S → Option (P × S)) (c : Config I P S) (i : I) : Config I P S :=
  match step i (c.pos i) c.shared with
  | none => c
  | some (p, s) => ⟨s, Function.update c.pos i p⟩

/-- The turns of a schedule, one after the other. -/
def Config.run (step : I → P → S → Option (P × S)) (c : Config I P S) (schedule : List I) :
    Config I P S :=
  schedule.foldl (Config.turn step) c

/-- Rely and guarantee.  A step keeps what is common and what its thread stands on, and
yields only changes that leave every other thread standing. -/
structure Discipline (step : I → P → S → Option (P × S)) (common : S → Prop)
    (stands : I → P → S → Prop) (yields : I → S → S → Prop) : Prop where
  own : ∀ {i : I} {p p' : P} {s s' : S}, common s → stands i p s → step i p s = some (p', s') →
    common s' ∧ stands i p' s' ∧ yields i s s'
  stable : ∀ {i j : I} {p : P} {s s' : S}, j ≠ i → common s → stands j p s → yields i s s' →
    stands j p s'

section Runs

variable {step : I → P → S → Option (P × S)} {common : S → Prop} {stands : I → P → S → Prop}
variable {yields : I → S → S → Prop} {c : Config I P S}

/-- Everything stands. -/
def Config.Stands (common : S → Prop) (stands : I → P → S → Prop) (c : Config I P S) : Prop :=
  common c.shared ∧ ∀ i, stands i (c.pos i) c.shared

theorem Discipline.turn (hdisc : Discipline step common stands yields)
    (hc : c.Stands common stands) (i : I) : (c.turn step i).Stands common stands := by
  obtain ⟨hcommon, hstands⟩ := hc
  rw [Config.turn]
  cases hstep : step i (c.pos i) c.shared with
  | none => exact ⟨hcommon, hstands⟩
  | some out =>
      obtain ⟨p', s'⟩ := out
      obtain ⟨hcommon', hown, hyields⟩ := hdisc.own hcommon (hstands i) hstep
      refine ⟨hcommon', fun j => ?_⟩
      by_cases hj : j = i
      · subst hj
        simpa only [Function.update_self] using hown
      · simpa only [Function.update_of_ne hj] using
          hdisc.stable hj hcommon (hstands j) hyields

theorem Discipline.run (hdisc : Discipline step common stands yields)
    (hc : c.Stands common stands) (schedule : List I) :
    (c.run step schedule).Stands common stands := by
  induction schedule generalizing c with
  | nil => exact hc
  | cons i rest ih => exact ih (hdisc.turn hc i)

variable [Fintype I] {M : Type} [AddCancelCommMonoid M] {tally : S → M} {share : I → P → M}

theorem sum_update_add (share : I → P → M) (pos : I → P) (i : I) (p : P) :
    (∑ j, share j (Function.update pos i p j)) + share i (pos i) =
      (∑ j, share j (pos j)) + share i p := by
  have hrest : ∑ j ∈ Finset.univ.erase i, share j (Function.update pos i p j) =
      ∑ j ∈ Finset.univ.erase i, share j (pos j) := by
    apply Finset.sum_congr rfl
    intro j hj
    rw [Function.update_of_ne (Finset.ne_of_mem_erase hj)]
  rw [← Finset.add_sum_erase _ _ (Finset.mem_univ i), hrest,
    ← Finset.add_sum_erase _ (fun j => share j (pos j)) (Finset.mem_univ i), Function.update_self]
  abel

theorem Config.Stands.turn_tally (hc : c.Stands common stands)
    (hadds : ∀ {i p s p' s'}, common s → stands i p s → step i p s = some (p', s') →
      tally s' + share i p = tally s + share i p') (i : I) :
    tally (c.turn step i).shared + ∑ j, share j (c.pos j) =
      tally c.shared + ∑ j, share j ((c.turn step i).pos j) := by
  rw [Config.turn]
  cases hstep : step i (c.pos i) c.shared with
  | none => rfl
  | some out =>
      obtain ⟨p', s'⟩ := out
      have hstep' := hadds hc.1 (hc.2 i) hstep
      have hsum := sum_update_add share c.pos i p'
      apply add_right_cancel (b := share i (c.pos i) + share i p')
      calc tally s' + ∑ j, share j (c.pos j) + (share i (c.pos i) + share i p')
          = (tally s' + share i (c.pos i)) + ((∑ j, share j (c.pos j)) + share i p') := by abel
        _ = (tally c.shared + share i p') +
              ((∑ j, share j (Function.update c.pos i p' j)) + share i (c.pos i)) := by
            rw [hstep', hsum]
        _ = _ := by abel

/-- Over a run the tally grows by what the threads' shares grow. -/
theorem Discipline.run_tally (hdisc : Discipline step common stands yields)
    (tally : S → M) (share : I → P → M)
    (hadds : ∀ {i p s p' s'}, common s → stands i p s → step i p s = some (p', s') →
      tally s' + share i p = tally s + share i p')
    (hc : c.Stands common stands) (schedule : List I) :
    tally (c.run step schedule).shared + ∑ j, share j (c.pos j) =
      tally c.shared + ∑ j, share j ((c.run step schedule).pos j) := by
  induction schedule generalizing c with
  | nil => rfl
  | cons i rest ih =>
      have hfirst := hc.turn_tally hadds i
      have hrest : tally ((c.turn step i).run step rest).shared + _ = _ := ih (hdisc.turn hc i)
      apply add_right_cancel (b := ∑ j, share j ((c.turn step i).pos j))
      calc tally ((c.turn step i).run step rest).shared + ∑ j, share j (c.pos j) +
            ∑ j, share j ((c.turn step i).pos j)
          = (tally (c.turn step i).shared + ∑ j, share j (c.pos j)) +
              ∑ j, share j (((c.turn step i).run step rest).pos j) := by
            rw [add_right_comm, hrest, add_right_comm]
        _ = _ := by
            rw [hfirst, add_right_comm]
            rfl

theorem Discipline.run_tally_of_zero (hdisc : Discipline step common stands yields)
    (tally : S → M) (share : I → P → M)
    (hadds : ∀ {i p s p' s'}, common s → stands i p s → step i p s = some (p', s') →
      tally s' + share i p = tally s + share i p')
    (hc : c.Stands common stands) (hzero : tally c.shared = 0)
    (hnone : ∀ i, share i (c.pos i) = 0) (schedule : List I) :
    tally (c.run step schedule).shared = ∑ j, share j ((c.run step schedule).pos j) := by
  have htally := hdisc.run_tally tally share hadds hc schedule
  rwa [Finset.sum_eq_zero fun i _ => hnone i, add_zero, hzero, zero_add] at htally

end Runs

end SharedThreads
