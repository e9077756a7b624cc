/-
Folding a list of hashes level by level: neighbours are joined in pairs until
one hash remains.  The last hash of an odd level is joined with itself, and a
zero hash stands for an absent one.  The list behind a root is pinned only as
far as the joining of pairs is reversible.
-/
import Mathlib.Data.List.Basic
import Mathlib.Tactic

namespace PairFold

universe u

variable {N : Type u} [DecidableEq N] (zero : N) (hash : N → N → N)

/-- The parent of a pair.  An absent left hash has an absent parent; an absent
right one is replaced by the left. -/
def join (left : N) (right : Option N) : N :=
  if left = zero then zero
  else
    match right with
    | none => hash left left
    | some right => if right = zero then hash left left else hash left right

/-- The parents of one level. -/
def level : List N → List N
  | [] => []
  | [left] => [join zero hash left none]
  | left :: right :: rest => join zero hash left (some right) :: level rest

/-- Fold levels until one hash remains, or the rounds run out. -/
def fold : Nat → List N → N
  | _, [] => zero
  | _, [hash] => hash
  | 0, _ => zero
  | rounds + 1, hashes => fold rounds (level zero hash hashes)

/-- The root of a list: a round a level, so as many rounds as hashes are enough. -/
def root (hashes : List N) : N :=
  fold zero hash hashes.length hashes

theorem length_level (hashes : List N) :
    (level zero hash hashes).length = (hashes.length + 1) / 2 := by
  induction hashes using level.induct with
  | case1 => simp [level]
  | case2 left => simp [level]
  | case3 left right rest ih =>
      simp only [level, List.length_cons, ih]
      omega

/-- A level by position: parent `p` joins the hashes `2p` and `2p + 1`. -/
theorem level_eq_map_range (hashes : List N) :
    level zero hash hashes =
      (List.range ((hashes.length + 1) / 2)).map fun p =>
        join zero hash (hashes.getD (2 * p) zero) hashes[2 * p + 1]? := by
  induction hashes using level.induct with
  | case1 => simp [level]
  | case2 left => simp [level]
  | case3 left right rest ih =>
      have hlength : ((left :: right :: rest).length + 1) / 2 = (rest.length + 1) / 2 + 1 := by
        simp only [List.length_cons]
        omega
      rw [hlength, List.range_succ_eq_map, level, ih, List.map_cons, List.map_map]
      refine congrArg₂ List.cons (by simp) (List.map_congr_left fun p _ => ?_)
      have heven : 2 * Nat.succ p = 2 * p + 1 + 1 := by omega
      have hodd : 2 * Nat.succ p + 1 = 2 * p + 1 + 1 + 1 := by omega
      simp only [Function.comp_apply, heven, List.getElem?_cons_succ,
        List.getD_eq_getElem?_getD]

theorem fold_cons_cons (rounds : Nat) (first second : N) (rest : List N) :
    fold zero hash (rounds + 1) (first :: second :: rest) =
      fold zero hash rounds (level zero hash (first :: second :: rest)) := rfl

/-- More rounds than the list needs change nothing. -/
theorem fold_stable {size rounds other : Nat} {hashes : List N} (hsize : hashes.length ≤ size)
    (hrounds : hashes.length ≤ rounds) (hother : hashes.length ≤ other) :
    fold zero hash rounds hashes = fold zero hash other hashes := by
  induction size generalizing hashes rounds other with
  | zero =>
      obtain rfl : hashes = [] := List.length_eq_zero_iff.mp (Nat.le_zero.mp hsize)
      simp [fold]
  | succ size ih =>
      match hashes with
      | [] => simp [fold]
      | [only] => simp [fold]
      | first :: second :: rest =>
          have hlength := length_level zero hash (first :: second :: rest)
          simp only [List.length_cons] at hlength hsize hrounds hother
          obtain ⟨rounds, rfl⟩ := Nat.exists_eq_add_of_le' (show 1 ≤ rounds by omega)
          obtain ⟨other, rfl⟩ := Nat.exists_eq_add_of_le' (show 1 ≤ other by omega)
          rw [fold_cons_cons, fold_cons_cons]
          exact ih (by omega) (by omega) (by omega)

theorem fold_eq_root {rounds : Nat} {hashes : List N} (hrounds : hashes.length ≤ rounds) :
    fold zero hash rounds hashes = root zero hash hashes :=
  fold_stable zero hash (Nat.le_refl _) hrounds (Nat.le_refl _)

theorem root_singleton (only : N) : root zero hash [only] = only := rfl

theorem root_level {hashes : List N} (htwo : 2 ≤ hashes.length) :
    root zero hash hashes = root zero hash (level zero hash hashes) := by
  match hashes, htwo with
  | first :: second :: rest, _ =>
      have hlength := length_level zero hash (first :: second :: rest)
      rw [List.length_cons, List.length_cons] at hlength
      rw [root, List.length_cons, fold_cons_cons]
      apply fold_eq_root
      rw [List.length_cons]
      omega

theorem join_cases (left : N) (right : Option N) :
    join zero hash left right = zero ∨
      ∃ a b, a ≠ zero ∧ b ≠ zero ∧ join zero hash left right = hash a b := by
  by_cases hleft : left = zero
  · exact Or.inl (if_pos hleft)
  · right
    cases right with
    | none => exact ⟨left, left, hleft, hleft, if_neg hleft⟩
    | some right =>
        by_cases hright : right = zero
        · exact ⟨left, left, hleft, hleft, by simp [join, hleft, hright]⟩
        · exact ⟨left, right, hleft, hright, by simp [join, hleft, hright]⟩

/-- The root of two hashes or more is zero or the hash of two that are not. -/
theorem root_cases {hashes : List N} (htwo : 2 ≤ hashes.length) :
    root zero hash hashes = zero ∨
      ∃ a b, a ≠ zero ∧ b ≠ zero ∧ root zero hash hashes = hash a b := by
  generalize hsize : hashes.length = size at htwo
  induction size using Nat.strong_induction_on generalizing hashes with
  | _ size ih =>
      subst hsize
      rw [root_level zero hash htwo]
      have hlength := length_level zero hash hashes
      match hashes, htwo, hlength with
      | [left, right], _, _ => exact join_cases zero hash left (some right)
      | first :: second :: third :: rest, _, hlength =>
          simp only [List.length_cons] at hlength ih
          exact ih _ (by omega) rfl (by omega)

theorem root_pair {left right : N} (hleft : left ≠ zero) (hright : right ≠ zero) :
    root zero hash [left, right] = hash left right := by
  simp [root, fold, level, join, hleft, hright]

theorem root_absent_pair : root zero hash [zero, zero] = zero := by
  simp [root, fold, level, join]

/-- Repeating the last hash of an odd level changes nothing. -/
theorem root_repeat_third (first second third : N) :
    root zero hash [first, second, third, third] = root zero hash [first, second, third] := by
  have hjoin : join zero hash third (some third) = join zero hash third none := by
    by_cases hthird : third = zero <;> simp [join, hthird]
  simp [root, fold, level, hjoin]

/-- A root that is neither absent nor the hash of a pair is its list. -/
theorem eq_singleton_of_root {target : N} (hpresent : target ≠ zero)
    (hunhashed : ∀ a b, a ≠ zero → b ≠ zero → target ≠ hash a b) {hashes : List N}
    (hsome : hashes ≠ []) (hroot : root zero hash hashes = target) : hashes = [target] := by
  match hashes with
  | [] => exact absurd rfl hsome
  | [only] => rw [← hroot, root_singleton]
  | first :: second :: rest =>
      have htwo : 2 ≤ (first :: second :: rest).length := by simp
      rcases root_cases zero hash htwo with habsent | ⟨a, b, ha, hb, hjoin⟩
      · exact absurd (hroot.symm.trans habsent) hpresent
      · exact absurd (hroot.symm.trans hjoin) (hunhashed a b ha hb)

/-- The pairs one level hashes when no hash is absent. -/
def levelPairs : List N → List (N × N)
  | [] => []
  | [left] => [(left, left)]
  | left :: right :: rest => (left, right) :: levelPairs rest

/-- The pairs hashed on the way to the root when no hash is absent. -/
def foldPairs : Nat → List N → List (N × N)
  | _, [] => []
  | _, [_] => []
  | 0, _ => []
  | rounds + 1, hashes => levelPairs hashes ++ foldPairs rounds (level zero hash hashes)

def rootPairs (hashes : List N) : List (N × N) :=
  foldPairs zero hash hashes.length hashes

omit [DecidableEq N] in
theorem levelPairs_inj {left right : List N} (hlength : left.length = right.length)
    (hpairs : levelPairs left = levelPairs right) : left = right := by
  induction left using levelPairs.induct generalizing right with
  | case1 => exact (List.length_eq_zero_iff.mp hlength.symm).symm
  | case2 a =>
      match right, hlength with
      | [b], _ =>
          simp only [levelPairs, List.cons.injEq, Prod.mk.injEq] at hpairs
          rw [hpairs.1.1]
  | case3 a b rest ih =>
      match right, hlength with
      | c :: d :: rest', hlength =>
          simp only [levelPairs, List.cons.injEq, Prod.mk.injEq] at hpairs
          obtain ⟨⟨rfl, rfl⟩, htail⟩ := hpairs
          rw [ih (by simpa using hlength) htail]

theorem level_eq_map {hashes : List N} (hpresent : zero ∉ hashes) :
    level zero hash hashes =
      (levelPairs hashes).map fun pair => hash pair.1 pair.2 := by
  induction hashes using levelPairs.induct with
  | case1 => rfl
  | case2 left =>
      have hleft : left ≠ zero := fun h => hpresent (by simp [h])
      simp [level, levelPairs, join, hleft]
  | case3 left right rest ih =>
      simp only [List.mem_cons, not_or] at hpresent
      obtain ⟨hleft, hright, hrest⟩ := hpresent
      simp [level, levelPairs, join, Ne.symm hleft, Ne.symm hright, ih hrest]

omit [DecidableEq N] in
/-- Two lists of pairs with no collision between them have the same hashes only
when they are the same. -/
theorem pairs_eq_of_hashes_eq {left right : List (N × N)}
    (hinj : ∀ p ∈ left, ∀ q ∈ right, hash p.1 p.2 = hash q.1 q.2 → p = q)
    (hhashes : (left.map fun pair => hash pair.1 pair.2) =
      right.map fun pair => hash pair.1 pair.2) : left = right := by
  induction left generalizing right with
  | nil => simpa using hhashes.symm
  | cons p left ih =>
      match right with
      | [] => simp at hhashes
      | q :: right =>
          simp only [List.map_cons, List.cons.injEq] at hhashes
          have hhead := hinj p List.mem_cons_self q List.mem_cons_self hhashes.1
          have htail := ih (fun p' hp' q' hq' => hinj p' (List.mem_cons_of_mem p hp') q'
            (List.mem_cons_of_mem q hq')) hhashes.2
          rw [hhead, htail]

theorem zero_not_mem_level {hashes : List N} (hpresent : zero ∉ hashes)
    (hne : ∀ p ∈ levelPairs hashes, hash p.1 p.2 ≠ zero) :
    zero ∉ level zero hash hashes := by
  rw [level_eq_map zero hash hpresent]
  intro hmem
  obtain ⟨pair, hpair, hzero⟩ := List.mem_map.mp hmem
  exact hne pair hpair hzero

theorem fold_inj {rounds : Nat} {left right : List N} (hrounds : left.length ≤ rounds)
    (hlength : left.length = right.length) (hleft : zero ∉ left) (hright : zero ∉ right)
    (hinj : ∀ p ∈ foldPairs zero hash rounds left, ∀ q ∈ foldPairs zero hash rounds right,
      hash p.1 p.2 = hash q.1 q.2 → p = q)
    (hne : ∀ p, p ∈ foldPairs zero hash rounds left ∨ p ∈ foldPairs zero hash rounds right →
      hash p.1 p.2 ≠ zero)
    (hroot : fold zero hash rounds left = fold zero hash rounds right) : left = right := by
  induction rounds generalizing left right with
  | zero =>
      obtain rfl : left = [] := List.length_eq_zero_iff.mp (Nat.le_zero.mp hrounds)
      exact (List.length_eq_zero_iff.mp hlength.symm).symm
  | succ rounds ih =>
      match left, right, hlength with
      | [], [], _ => rfl
      | [a], [b], _ => rw [show a = b from hroot]
      | a :: b :: left, c :: d :: right, hlength =>
          simp only [foldPairs, List.mem_append] at hinj hne
          have hlevels : level zero hash (a :: b :: left) =
              level zero hash (c :: d :: right) := by
            have hsize := length_level zero hash (a :: b :: left)
            have hsize' := length_level zero hash (c :: d :: right)
            simp only [List.length_cons] at hsize hsize' hlength hrounds
            apply ih (by omega) (by omega)
            · exact zero_not_mem_level zero hash hleft fun p hp =>
                hne p (Or.inl (Or.inl hp))
            · exact zero_not_mem_level zero hash hright fun p hp =>
                hne p (Or.inr (Or.inl hp))
            · exact fun p hp q hq => hinj p (Or.inr hp) q (Or.inr hq)
            · exact fun p hp => hne p (hp.imp Or.inr Or.inr)
            · exact hroot
          rw [level_eq_map zero hash hleft, level_eq_map zero hash hright] at hlevels
          apply levelPairs_inj hlength
          exact pairs_eq_of_hashes_eq hash
            (fun p hp q hq => hinj p (Or.inl hp) q (Or.inl hq)) hlevels

/-- Two lists of one length without absent hashes, between which no pair
collides or hashes to zero, have one root only when they are one list. -/
theorem root_inj {left right : List N} (hlength : left.length = right.length)
    (hleft : zero ∉ left) (hright : zero ∉ right)
    (hinj : ∀ p ∈ rootPairs zero hash left, ∀ q ∈ rootPairs zero hash right,
      hash p.1 p.2 = hash q.1 q.2 → p = q)
    (hne : ∀ p, p ∈ rootPairs zero hash left ∨ p ∈ rootPairs zero hash right →
      hash p.1 p.2 ≠ zero)
    (hroot : root zero hash left = root zero hash right) : left = right := by
  rw [rootPairs, rootPairs, ← hlength] at hinj hne
  rw [root, root, ← hlength] at hroot
  exact fold_inj zero hash (Nat.le_refl _) hlength hleft hright hinj hne hroot

end PairFold
