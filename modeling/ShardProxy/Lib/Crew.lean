/-
A crew of finitely many members, each in some phase.  A move changes the phase of one of
them, so a tally over the crew changes by what that one member weighs.
-/
import Mathlib.Algebra.BigOperators.Group.Finset.Piecewise
import Mathlib.Algebra.Order.BigOperators.Group.Finset
import Mathlib.Algebra.Order.Ring.Int
import Mathlib.Data.Fintype.BigOperators
import Mathlib.Tactic.Abel

namespace Crew

variable {ι α M : Type} [DecidableEq ι]

/-- What is true of everybody stays so if it is true of the member that moved. -/
theorem forall_update {P : ι → α → Prop} {f : ι → α} {i : ι} {a : α}
    (hothers : ∀ k, k ≠ i → P k (f k)) (hmoved : P i a) (k : ι) :
    P k (Function.update f i a k) := by
  by_cases hk : k = i
  · subst hk
    rwa [Function.update_self]
  · rw [Function.update_of_ne hk]
    exact hothers k hk

/-- What is true between a phase and itself is true between the phases before and after a
move, if it is true of the member that moved. -/
theorem update_related {R : α → α → Prop} (hrefl : ∀ a, R a a) {f : ι → α} {i : ι} {a : α}
    (hmoved : R (f i) a) (k : ι) : R (f k) (Function.update f i a k) :=
  forall_update (P := fun k b => R (f k) b) (fun k _ => hrefl (f k)) hmoved k

variable [Fintype ι]

/-- The sum of what the members weigh in their phases. -/
def tally [AddCommMonoid M] (weigh : α → M) (f : ι → α) : M :=
  ∑ i, weigh (f i)

theorem tally_update [AddCommMonoid M] (weigh : α → M) (f : ι → α) (i : ι) (a : α) :
    tally weigh (Function.update f i a) + weigh (f i) = tally weigh f + weigh a := by
  have hmoved : (fun k => weigh (Function.update f i a k)) =
      Function.update (fun k => weigh (f k)) i (weigh a) :=
    funext fun k => Function.apply_update (fun _ => weigh) f i a k
  have hmem := Finset.mem_univ i
  rw [tally, hmoved, Finset.sum_update_of_mem hmem, tally,
    Finset.sum_eq_add_sum_sdiff_singleton_of_mem hmem]
  abel

omit [DecidableEq ι] in
/-- If nobody weighs more than one, a crew that weighs as much as it has members has
nobody who weighs less. -/
theorem weigh_eq_one {weigh : α → Int} (hone : ∀ a, weigh a ≤ 1) {f : ι → α}
    (hall : (Fintype.card ι : Int) ≤ tally weigh f) (i : ι) : weigh (f i) = 1 := by
  by_contra hless
  have hlight : weigh (f i) < 1 := lt_of_le_of_ne (hone (f i)) hless
  have hsum : tally weigh f < ∑ _ : ι, (1 : Int) :=
    Finset.sum_lt_sum (fun k _ => hone (f k)) ⟨i, Finset.mem_univ i, hlight⟩
  rw [Finset.sum_const, Finset.card_univ, nsmul_eq_mul, mul_one] at hsum
  omega

end Crew
