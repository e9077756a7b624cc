/-
Fair runs of several processes.  A run is an infinite sequence of states in which one
process moves at a time, or nobody does.  What leads to what along a run follows from
two rules: a process that can move until it does, and a rank that drops whenever the
process whose turn it is moves.
-/
import Mathlib.Algebra.Order.Group.Nat

namespace FairRun

variable {P S : Type}

/-- An infinite run: at every instant one process moves, or nobody does. -/
structure Run (step : P → S → S → Prop) where
  state : Nat → S
  mover : Nat → Option P
  rests : ∀ n, mover n = none → state (n + 1) = state n
  moves : ∀ n p, mover n = some p → step p (state n) (state (n + 1))

def Enabled (step : P → S → S → Prop) (p : P) (s : S) : Prop :=
  ∃ s', step p s s'

section Runs

variable {step : P → S → S → Prop} {ρ : Run step}

/-- A process that can move from some instant on moves. -/
def Run.WeaklyFair (ρ : Run step) (p : P) : Prop :=
  ∀ n, (∀ m, n ≤ m → Enabled step p (ρ.state m)) → ∃ m, n ≤ m ∧ ρ.mover m = some p

/-- A process that can move again and again moves. -/
def Run.StronglyFair (ρ : Run step) (p : P) : Prop :=
  ∀ n, (∀ m, n ≤ m → ∃ k, m ≤ k ∧ Enabled step p (ρ.state k)) → ∃ m, n ≤ m ∧ ρ.mover m = some p

theorem Run.StronglyFair.weak {p : P} (hfair : ρ.StronglyFair p) : ρ.WeaklyFair p := by
  intro n henabled
  apply hfair n
  intro m hm
  exact ⟨m, le_refl m, henabled m hm⟩

/-- A process that cannot move in the end is treated fairly. -/
theorem Run.stronglyFair_of_settled {p : P} {last : Nat}
    (hsettled : ∀ m, last ≤ m → ¬ Enabled step p (ρ.state m)) : ρ.StronglyFair p := by
  intro n hagain
  obtain ⟨k, hk, henabled⟩ := hagain (max n last) (le_max_left n last)
  exact absurd henabled (hsettled k (le_trans (le_max_right n last) hk))

/-- What holds at the start and is kept by every move holds along the run. -/
theorem Run.invariant {I : S → Prop} (hstart : I (ρ.state 0))
    (hkept : ∀ p s s', I s → step p s s' → I s') (n : Nat) : I (ρ.state n) := by
  induction n with
  | zero => exact hstart
  | succ n ih =>
      cases hmover : ρ.mover n with
      | none => exact ρ.rests n hmover ▸ ih
      | some p => exact hkept p _ _ ih (ρ.moves n p hmover)

/-- What every move keeps holds from any instant on at which it holds. -/
theorem Run.later {A : S → Prop} {n m : Nat} (hA : A (ρ.state n)) (hm : n ≤ m)
    (hkept : ∀ k p, A (ρ.state k) → ρ.mover k = some p → A (ρ.state (k + 1))) :
    A (ρ.state m) := by
  induction m, hm using Nat.le_induction with
  | base => exact hA
  | succ m _ ih =>
      cases hmover : ρ.mover m with
      | none => exact ρ.rests m hmover ▸ ih
      | some p => exact hkept m p ih hmover

theorem Run.again {A : S → Prop} {n : Nat} (hA : A (ρ.state n))
    (hkept : ∀ p s s', A s → step p s s' → A s') (k : Nat) : ∃ m, k ≤ m ∧ A (ρ.state m) :=
  ⟨max k n, le_max_left k n, Run.later hA (le_max_right k n) fun m p hAm hmover =>
    hkept p _ _ hAm (ρ.moves m p hmover)⟩

/-- Whenever `A` holds, `B` holds then or later. -/
def Run.Leads (ρ : Run step) (A B : S → Prop) : Prop :=
  ∀ n, A (ρ.state n) → ∃ m, n ≤ m ∧ B (ρ.state m)

theorem Run.Leads.trans {A B C : S → Prop} (hfirst : ρ.Leads A B) (hsecond : ρ.Leads B C) :
    ρ.Leads A C := by
  intro n hA
  obtain ⟨m, hm, hB⟩ := hfirst n hA
  obtain ⟨k, hk, hC⟩ := hsecond m hB
  exact ⟨k, le_trans hm hk, hC⟩

theorem Run.leads_of_exists {X : Type} {A : X → S → Prop} {B : S → Prop}
    (hleads : ∀ x, ρ.Leads (A x) B) : ρ.Leads (fun s => ∃ x, A x s) B :=
  fun n ⟨x, hA⟩ => hleads x n hA

theorem Run.Leads.trans_or {A B C : S → Prop} (hfirst : ρ.Leads A fun s => C s ∨ B s)
    (hsecond : ρ.Leads B C) : ρ.Leads A C := by
  apply hfirst.trans
  rintro n (hC | hB)
  · exact ⟨n, le_refl n, hC⟩
  · exact hsecond n hB

theorem Run.Leads.mono {A B C : S → Prop} (hleads : ρ.Leads A B) (himp : ∀ s, B s → C s) :
    ρ.Leads A C :=
  hleads.trans fun n hB => ⟨n, le_refl n, himp _ hB⟩

/-- A process that would move if it were kept waiting takes `A` to `B`, if nobody else
ends `A` otherwise. -/
theorem Run.leads_of_moves {A B : S → Prop} {p : P}
    (hmoves : ∀ n, (∀ m, n ≤ m → A (ρ.state m)) → ∃ m, n ≤ m ∧ ρ.mover m = some p)
    (hkept : ∀ n q, A (ρ.state n) → ρ.mover n = some q →
      B (ρ.state (n + 1)) ∨ q ≠ p ∧ A (ρ.state (n + 1))) :
    ρ.Leads A B := by
  intro n hA
  by_contra hcontra
  have hnever : ∀ m, n ≤ m → ¬ B (ρ.state m) := fun m hm hB => hcontra ⟨m, hm, hB⟩
  have hstays : ∀ m, n ≤ m → A (ρ.state m) := by
    intro m hm
    induction m, hm using Nat.le_induction with
    | base => exact hA
    | succ m hm ih =>
        cases hmover : ρ.mover m with
        | none => exact ρ.rests m hmover ▸ ih
        | some q =>
            rcases hkept m q ih hmover with hB | ⟨_, hAm⟩
            · exact absurd hB (hnever (m + 1) (Nat.le_succ_of_le hm))
            · exact hAm
  obtain ⟨m, hm, hmover⟩ := hmoves n hstays
  rcases hkept m p (hstays m hm) hmover with hB | ⟨hother, _⟩
  · exact hnever (m + 1) (Nat.le_succ_of_le hm) hB
  · exact hother rfl

theorem Run.WeaklyFair.leads {A B : S → Prop} {p : P} (hfair : ρ.WeaklyFair p)
    (henabled : ∀ n, A (ρ.state n) → Enabled step p (ρ.state n))
    (hkept : ∀ n q, A (ρ.state n) → ρ.mover n = some q →
      B (ρ.state (n + 1)) ∨ q ≠ p ∧ A (ρ.state (n + 1))) :
    ρ.Leads A B := by
  apply Run.leads_of_moves _ hkept
  intro n hstays
  exact hfair n fun m hm => henabled m (hstays m hm)

/-- A process that is able to move whenever `F` holds, again and again, gets to move. -/
theorem Run.StronglyFair.leads {A B F : S → Prop} {p : P} (hfair : ρ.StronglyFair p)
    (hagain : ∀ n, ∃ m, n ≤ m ∧ F (ρ.state m))
    (henabled : ∀ n, A (ρ.state n) → F (ρ.state n) → Enabled step p (ρ.state n))
    (hkept : ∀ n q, A (ρ.state n) → ρ.mover n = some q →
      B (ρ.state (n + 1)) ∨ q ≠ p ∧ A (ρ.state (n + 1))) :
    ρ.Leads A B := by
  apply Run.leads_of_moves _ hkept
  intro n hstays
  apply hfair n
  intro m hm
  obtain ⟨k, hk, hF⟩ := hagain m
  exact ⟨k, hk, henabled k (hstays k (le_trans hm hk)) hF⟩

/-- A rank that drops whenever the process whose turn it is moves, and that the others
do not raise, runs out. -/
theorem Run.leads_of_rank {A : Nat → S → Prop} {B : S → Prop} (turn : S → P)
    (hfair : ∀ s, ρ.WeaklyFair (turn s))
    (henabled : ∀ n r, A r (ρ.state n) → Enabled step (turn (ρ.state n)) (ρ.state n))
    (hstep : ∀ n r p, A r (ρ.state n) → ρ.mover n = some p →
      B (ρ.state (n + 1)) ∨ (∃ less < r, A less (ρ.state (n + 1))) ∨
        p ≠ turn (ρ.state n) ∧ A r (ρ.state (n + 1)) ∧
          turn (ρ.state (n + 1)) = turn (ρ.state n))
    (r : Nat) : ρ.Leads (A r) B := by
  induction r using Nat.strong_induction_on with
  | h r ih =>
      intro n hA
      -- Until the rank drops the turn stays with one process.
      have hdrops : ρ.Leads (fun s => A r s ∧ turn s = turn (ρ.state n))
          (fun s => B s ∨ ∃ less < r, A less s) := by
        apply (hfair (ρ.state n)).leads
        · rintro m ⟨hAm, hturn⟩
          exact hturn ▸ henabled m r hAm
        · rintro m p ⟨hAm, hturn⟩ hmover
          rcases hstep m r p hAm hmover with hB | hless | ⟨hother, hsame, hkept⟩
          · exact Or.inl (Or.inl hB)
          · exact Or.inl (Or.inr hless)
          · exact Or.inr ⟨hturn ▸ hother, hsame, hkept.trans hturn⟩
      obtain ⟨m, hm, hB | ⟨less, hlt, hless⟩⟩ := hdrops n ⟨hA, rfl⟩
      · exact ⟨m, hm, hB⟩
      · obtain ⟨k, hk, hB⟩ := ih less hlt m hless
        exact ⟨k, le_trans hm hk, hB⟩

end Runs

section Finite

variable {step : P → S → S → Prop}

/-- Finitely many moves, one after the other. -/
inductive Path (step : P → S → S → Prop) : S → S → Prop where
  | refl (s : S) : Path step s s
  | head {p : P} {s mid last : S} (hmove : step p s mid) (hrest : Path step mid last) :
      Path step s last

/-- A run of finitely many moves, after which nobody moves. -/
theorem Path.exists_run {s last : S} (hpath : Path step s last) :
    ∃ (ρ : Run step) (n : Nat), ρ.state 0 = s ∧ ∀ m, n ≤ m → ρ.state m = last := by
  induction hpath with
  | refl s =>
      exact ⟨⟨fun _ => s, fun _ => none, fun _ _ => rfl, fun _ _ hmover => nomatch hmover⟩,
        0, rfl, fun _ _ => rfl⟩
  | @head p s mid last hmove _ ih =>
      obtain ⟨ρ, n, hstart, hsettled⟩ := ih
      refine ⟨⟨fun m => m.casesOn s ρ.state, fun m => m.casesOn (some p) ρ.mover, ?_, ?_⟩,
        n + 1, rfl, ?_⟩
      · intro m hmover
        cases m with
        | zero => cases hmover
        | succ m => exact ρ.rests m hmover
      · intro m q hmover
        cases m with
        | zero =>
            cases hmover
            change step p s (ρ.state 0)
            rwa [hstart]
        | succ m => exact ρ.moves m q hmover
      · intro m hm
        cases m with
        | zero => omega
        | succ m => exact hsettled m (Nat.le_of_succ_le_succ hm)

end Finite

end FairRun
