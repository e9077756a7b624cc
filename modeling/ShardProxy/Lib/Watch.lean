/-
Watching a value.  A watcher sees one view after the other and acts on each with
the view before it at hand.  Rules for what holds at the end of a run: what every
tick keeps, what follows the last view, and when an alarm stays silent.
-/
import Mathlib.Data.List.Basic

namespace Watch

variable {V S : Type}

/-- Tick on each view with its predecessor. -/
def watch (tick : V → V → S → S) : V → List V → S → S
  | _, [], s => s
  | prev, next :: views, s => watch tick next views (tick prev next s)

variable {tick : V → V → S → S}

/-- What every tick keeps is there at the end. -/
theorem watch_keeps {P : S → Prop} (htick : ∀ prev next s, P s → P (tick prev next s))
    (prev : V) (views : List V) {s : S} (hs : P s) : P (watch tick prev views s) := by
  induction views generalizing prev s with
  | nil => exact hs
  | cons next views ih => exact ih next (htick prev next s hs)

/-- What a tick brings from its old view to its new one holds of the last view. -/
theorem watch_tracks {P : V → S → Prop}
    (htick : ∀ prev next s, P prev s → P next (tick prev next s)) {prev : V} {s : S}
    (hs : P prev s) (views : List V) : P (views.getLastD prev) (watch tick prev views s) := by
  induction views generalizing prev s with
  | nil => exact hs
  | cons next views ih =>
      rw [List.getLastD_cons]
      exact ih (htick prev next s hs)

/-- An alarm that a tick raises on a change of what is watched, and no tick takes
back, is silent if and only if every view shows what the first one did. -/
theorem watch_silent_iff {K : Type} {key : V → K} {Alarm : S → Prop}
    (hkeep : ∀ prev next s, Alarm s → Alarm (tick prev next s))
    (hraise : ∀ prev next s, ¬ Alarm s → (Alarm (tick prev next s) ↔ key prev ≠ key next))
    (prev : V) (views : List V) {s : S} (hs : ¬ Alarm s) :
    ¬ Alarm (watch tick prev views s) ↔ ∀ view ∈ views, key view = key prev := by
  induction views generalizing prev s with
  | nil => exact ⟨fun _ => nofun, fun _ => hs⟩
  | cons next views ih =>
      rw [List.forall_mem_cons]
      by_cases hkey : key prev = key next
      · have hquiet : ¬ Alarm (tick prev next s) := fun hraised =>
          (hraise prev next s hs).mp hraised hkey
        rw [watch, ih next hquiet, hkey]
        exact ⟨fun hviews => ⟨rfl, hviews⟩, fun hviews => hviews.2⟩
      · have hraised : Alarm (tick prev next s) := (hraise prev next s hs).mpr hkey
        refine ⟨fun hsilent => absurd (watch_keeps hkeep next views hraised) hsilent, ?_⟩
        intro hviews
        exact absurd hviews.1.symm hkey

end Watch
