/-
Association lists as tables: looking a key up after one entry is overwritten, added
or removed.
-/
import Mathlib.Data.List.Basic

namespace AssocList

variable {K V : Type} [DecidableEq K]

theorem lookup_self (key : K) (value : V) (table : List (K × V)) :
    ((key, value) :: table).lookup key = some value := by
  rw [List.lookup_cons, beq_self_eq_true]

theorem lookup_of_ne {key other : K} (hne : key ≠ other) (value : V) (table : List (K × V)) :
    ((other, value) :: table).lookup key = table.lookup key := by
  rw [List.lookup_cons, beq_false_of_ne hne]

theorem isSome_lookup_iff {key : K} {table : List (K × V)} :
    (table.lookup key).isSome ↔ key ∈ table.map Prod.fst := by
  induction table with
  | nil => exact ⟨nofun, nofun⟩
  | cons entry table ih =>
      obtain ⟨other, stored⟩ := entry
      rw [List.map_cons, List.mem_cons]
      by_cases hkey : key = other
      · subst hkey
        rw [lookup_self]
        exact ⟨fun _ => Or.inl rfl, fun _ => rfl⟩
      · rw [lookup_of_ne hkey, ih]
        exact ⟨Or.inr, fun hor => hor.resolve_left hkey⟩

theorem mem_of_lookup {key : K} {value : V} {table : List (K × V)}
    (hfound : table.lookup key = some value) : (key, value) ∈ table := by
  induction table with
  | nil => cases hfound
  | cons entry table ih =>
      obtain ⟨other, stored⟩ := entry
      by_cases hkey : key = other
      · subst hkey
        rw [lookup_self] at hfound
        exact Option.some.inj hfound ▸ List.mem_cons_self ..
      · rw [lookup_of_ne hkey] at hfound
        exact List.mem_cons_of_mem _ (ih hfound)

/-- Where every key is there once, an entry is found by its key. -/
theorem lookup_of_mem {table : List (K × V)} (hkeys : (table.map Prod.fst).Nodup)
    {entry : K × V} (hmem : entry ∈ table) : table.lookup entry.1 = some entry.2 := by
  induction table with
  | nil => cases hmem
  | cons first rest ih =>
      obtain ⟨hnew, hrest⟩ := List.nodup_cons.mp hkeys
      rcases List.mem_cons.mp hmem with rfl | hlater
      · exact lookup_self _ _ _
      · have hne : entry.1 ≠ first.1 :=
          fun hsame => hnew (hsame ▸ List.mem_map_of_mem hlater)
        exact (lookup_of_ne hne _ _).trans (ih hrest hlater)

theorem lookup_filter_ne (removed key : K) (table : List (K × V)) :
    (table.filter fun entry => entry.1 ≠ removed).lookup key =
      if key = removed then none else table.lookup key := by
  induction table with
  | nil => rw [List.filter_nil, List.lookup_nil, ite_self]
  | cons entry table ih =>
      obtain ⟨other, stored⟩ := entry
      by_cases hgone : other = removed
      · subst hgone
        rw [List.filter_cons_of_neg (by simp), ih]
        by_cases hkey : key = other
        · rw [if_pos hkey, if_pos hkey]
        · rw [if_neg hkey, if_neg hkey, lookup_of_ne hkey]
      · rw [List.filter_cons_of_pos (by simpa using hgone)]
        by_cases hkey : key = other
        · subst hkey
          rw [lookup_self, lookup_self, if_neg hgone]
        · rw [lookup_of_ne hkey, ih, lookup_of_ne hkey]

theorem lookup_overwrite_ne {written key : K} (hne : key ≠ written) (value : V)
    (table : List (K × V)) :
    (table.map fun entry => if entry.1 = written then (written, value) else entry).lookup key =
      table.lookup key := by
  induction table with
  | nil => rfl
  | cons entry table ih =>
      obtain ⟨other, stored⟩ := entry
      rw [List.map_cons]
      by_cases hhere : other = written
      · subst hhere
        rw [if_pos rfl, lookup_of_ne hne, lookup_of_ne hne, ih]
      · rw [if_neg hhere]
        by_cases hkey : key = other
        · subst hkey
          rw [lookup_self, lookup_self]
        · rw [lookup_of_ne hkey, lookup_of_ne hkey, ih]

theorem keys_overwrite (written : K) (value : V) (table : List (K × V)) :
    (table.map fun entry => if entry.1 = written then (written, value) else entry).map Prod.fst =
      table.map Prod.fst := by
  rw [List.map_map]
  apply List.map_congr_left
  intro entry _
  by_cases hentry : entry.1 = written
  · simp only [Function.comp_apply, hentry, ↓reduceIte]
  · simp only [Function.comp_apply, hentry, ↓reduceIte]

theorem lookup_overwrite_self {written : K} (value : V) {table : List (K × V)}
    (hthere : (table.lookup written).isSome) :
    (table.map fun entry => if entry.1 = written then (written, value) else entry).lookup
      written = some value := by
  induction table with
  | nil => cases hthere
  | cons entry table ih =>
      obtain ⟨other, stored⟩ := entry
      rw [List.map_cons]
      by_cases hhere : other = written
      · subst hhere
        rw [if_pos rfl, lookup_self]
      · rw [lookup_of_ne (Ne.symm hhere)] at hthere
        rw [if_neg hhere, lookup_of_ne (Ne.symm hhere), ih hthere]

end AssocList
