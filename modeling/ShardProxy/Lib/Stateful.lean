/-
Computations with a state that may stop with an error, and when one refines another.
Two computations over different states refine if, from related states, they end alike
and in related states.
-/
import Mathlib.Logic.Basic

namespace Stateful

universe u v

variable {S T : Type u} {E A B : Type v}

/-- A computation on a state; it ends with a result or stops with an error. -/
def Comp (S : Type u) (E A : Type v) : Type (max u v) := S → Except E A × S

def Comp.bind (x : Comp S E A) (next : A → Comp S E B) : Comp S E B := fun s =>
  match x s with
  | (.ok result, s) => next result s
  | (.error error, s) => (.error error, s)

instance : Monad (Comp S E) where
  pure result := fun s => (.ok result, s)
  bind := Comp.bind

/-- Stop with an error, or go on with a result. -/
def Comp.check (result : Except E A) : Comp S E A := fun s => (result, s)

theorem Comp.bind_of_ok {x : Comp S E A} {s s' : S} {result : A} (hx : x s = (.ok result, s'))
    (next : A → Comp S E B) : (x >>= next) s = next result s' := by
  change Comp.bind x next s = _
  rw [Comp.bind, hx]

theorem Comp.bind_of_error {x : Comp S E A} {s s' : S} {error : E}
    (hx : x s = (.error error, s')) (next : A → Comp S E B) :
    (x >>= next) s = (.error error, s') := by
  change Comp.bind x next s = _
  rw [Comp.bind, hx]

theorem Comp.bind_assoc {C : Type v} (x : Comp S E A) (f : A → Comp S E B) (g : B → Comp S E C) :
    x >>= f >>= g = x >>= fun result => f result >>= g := by
  funext s
  change Comp.bind (Comp.bind x f) g s = Comp.bind x (fun result => Comp.bind (f result) g) s
  unfold Comp.bind
  rcases x s with ⟨result | error, s'⟩ <;> rfl

/-- From related states the computations end alike, in related states. -/
def Refines (pre post : S → T → Prop) (x : Comp S E A) (y : Comp T E A) : Prop :=
  ∀ s t, pre s t → (x s).1 = (y t).1 ∧ post (x s).2 (y t).2

variable {pre mid post : S → T → Prop}

theorem Refines.mono {pre' post' : S → T → Prop} {x : Comp S E A} {y : Comp T E A}
    (hx : Refines pre post x y) (hpre : ∀ s t, pre' s t → pre s t)
    (hpost : ∀ s t, post s t → post' s t) : Refines pre' post' x y := by
  intro s t hst
  obtain ⟨hresult, hstates⟩ := hx s t (hpre s t hst)
  exact ⟨hresult, hpost _ _ hstates⟩

theorem Refines.pure (hpre : ∀ s t, pre s t → post s t) (result : A) :
    Refines pre post (Pure.pure result : Comp S E A) (Pure.pure result) :=
  fun s t hst => ⟨rfl, hpre s t hst⟩

theorem Refines.check (hpre : ∀ s t, pre s t → post s t) (result : Except E A) :
    Refines pre post (Comp.check result : Comp S E A) (Comp.check result) :=
  fun s t hst => ⟨rfl, hpre s t hst⟩

/-- Computations that refine refine in sequence; one that stops must stop in states the
whole may end in. -/
theorem Refines.bind {x : Comp S E A} {y : Comp T E A} {f : A → Comp S E B}
    {g : A → Comp T E B} (hx : Refines pre mid x y)
    (hstop : ∀ s t, mid s t → post s t)
    (hnext : ∀ result, Refines mid post (f result) (g result)) :
    Refines pre post (x >>= f) (y >>= g) := by
  intro s t hst
  obtain ⟨hresult, hstates⟩ := hx s t hst
  rcases hxs : x s with ⟨ran, s'⟩
  rcases hyt : y t with ⟨ran', t'⟩
  rw [hxs, hyt] at hresult hstates
  dsimp only at hresult hstates
  subst hresult
  cases ran with
  | error error =>
      rw [Comp.bind_of_error hxs, Comp.bind_of_error hyt]
      exact ⟨rfl, hstop s' t' hstates⟩
  | ok result =>
      rw [Comp.bind_of_ok hxs, Comp.bind_of_ok hyt]
      exact hnext result s' t' hstates

end Stateful
