/-
Cutting a list into consecutive pieces of one size.  The pieces are addressed
by index, as a loop over start offsets produces them; the last one holds what
is left over.
-/
import Mathlib.Data.List.Basic
import Mathlib.Tactic

namespace Chunks

universe u

variable {A : Type u}

/-- How many pieces of at most `size` elements `length` elements take. -/
def chunkCount (length size : Nat) : Nat :=
  (length + size - 1) / size

/-- The piece that starts at `index * size`. -/
def chunk (list : List A) (size index : Nat) : List A :=
  (list.drop (index * size)).take size

theorem chunkCount_le_iff {length size bound : Nat} (hsize : 0 < size) :
    chunkCount length size ≤ bound ↔ length ≤ bound * size := by
  have hlt := Nat.div_lt_iff_lt_mul (x := length + size - 1) (y := bound + 1) hsize
  rw [chunkCount, ← Nat.lt_succ_iff, Nat.succ_eq_add_one, hlt, Nat.add_mul,
    Nat.one_mul]
  omega

theorem lt_chunkCount_iff {length size index : Nat} (hsize : 0 < size) :
    index < chunkCount length size ↔ index * size < length := by
  have hle : chunkCount length size ≤ index ↔ length ≤ index * size :=
    chunkCount_le_iff hsize
  omega

theorem length_chunk (list : List A) (size index : Nat) :
    (chunk list size index).length = min size (list.length - index * size) := by
  rw [chunk, List.length_take, List.length_drop]

theorem chunk_ne_nil {list : List A} {size index : Nat} (hsize : 0 < size)
    (hindex : index < chunkCount list.length size) : chunk list size index ≠ [] := by
  have hlt := (lt_chunkCount_iff hsize).mp hindex
  have hlength := length_chunk list size index
  intro hnil
  rw [hnil, List.length_nil] at hlength
  omega

/-- Every piece but the last has full size. -/
theorem length_chunk_of_not_last {list : List A} {size index : Nat} (hsize : 0 < size)
    (hindex : index + 1 < chunkCount list.length size) :
    (chunk list size index).length = size := by
  have hlt := (lt_chunkCount_iff hsize).mp hindex
  rw [Nat.add_mul, Nat.one_mul] at hlt
  rw [length_chunk]
  omega

/-- The first `count` pieces are the first `count * size` elements. -/
theorem flatten_chunk_range (list : List A) (size count : Nat) :
    ((List.range count).map (chunk list size)).flatten = list.take (count * size) := by
  induction count with
  | zero => simp
  | succ count ih =>
      rw [List.range_succ, List.map_append, List.flatten_append, ih, List.map_singleton,
        List.flatten_singleton, chunk, Nat.add_mul, Nat.one_mul, List.take_add]

theorem flatten_chunks (list : List A) {size : Nat} (hsize : 0 < size) :
    ((List.range (chunkCount list.length size)).map (chunk list size)).flatten = list := by
  rw [flatten_chunk_range]
  apply List.take_of_length_le
  exact (chunkCount_le_iff hsize).mp (Nat.le_refl _)

theorem sum_length_chunks (list : List A) {size : Nat} (hsize : 0 < size) :
    ((List.range (chunkCount list.length size)).map
      fun index => (chunk list size index).length).sum = list.length := by
  have hflat := congrArg List.length (flatten_chunks list hsize)
  rw [List.length_flatten, List.map_map] at hflat
  exact hflat

/-- The pieces of a list under their indices. -/
def indexed (list : List A) (size : Nat) : List (Nat × List A) :=
  (List.range (chunkCount list.length size)).map fun i => (i, chunk list size i)

/-- The piece with an index among those that arrived. -/
def pieceAt (arrived : List (Nat × List A)) (i : Nat) : List A :=
  ((arrived.find? fun piece => piece.1 = i).map Prod.snd).getD []

/-- Put the first `count` pieces together by their indices. -/
def gather (arrived : List (Nat × List A)) (count : Nat) : List A :=
  (List.range count).flatMap (pieceAt arrived)

theorem pieceAt_of_perm {list : List A} {size : Nat} {arrived : List (Nat × List A)}
    (hperm : arrived.Perm (indexed list size)) {i : Nat}
    (hi : i < chunkCount list.length size) : pieceAt arrived i = chunk list size i := by
  have hpresent : (i, chunk list size i) ∈ arrived :=
    hperm.mem_iff.mpr (List.mem_map.mpr ⟨i, List.mem_range.mpr hi, rfl⟩)
  rw [pieceAt]
  cases hfind : arrived.find? fun piece => piece.1 = i with
  | none =>
      have habsent := List.find?_eq_none.mp hfind _ hpresent
      simp at habsent
  | some piece =>
      -- Only one piece has the index, so the one found is the chunk.
      have hindex : piece.1 = i := by simpa using List.find?_some hfind
      have hmem := hperm.mem_iff.mp (List.mem_of_find?_eq_some hfind)
      obtain ⟨j, _, rfl⟩ := List.mem_map.mp hmem
      obtain rfl : j = i := hindex
      rfl

/-- Whatever order the pieces arrive in, together they are the list. -/
theorem gather_of_perm {list : List A} {size : Nat} (hsize : 0 < size)
    {arrived : List (Nat × List A)} (hperm : arrived.Perm (indexed list size)) :
    gather arrived (chunkCount list.length size) = list := by
  have hpieces : (List.range (chunkCount list.length size)).map (pieceAt arrived) =
      (List.range (chunkCount list.length size)).map (chunk list size) := by
    apply List.map_congr_left
    intro i hi
    exact pieceAt_of_perm hperm (List.mem_range.mp hi)
  rw [gather, List.flatMap_def, hpieces]
  exact flatten_chunks list hsize

end Chunks
