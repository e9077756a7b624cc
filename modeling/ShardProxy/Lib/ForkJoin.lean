/-
Work split among workers.  The slots of an array are divided into consecutive
ranges, one a worker; the workers go through their ranges in any interleaving, a
slot at a time, and the work is joined when all are through.  Each slot is then
taken exactly once.
-/
import Mathlib.Data.List.Perm.Basic
import ShardProxy.Lib.Chunks

namespace ForkJoin

open Chunks

/-- What a worker has left of its range. -/
structure Range where
  next : Nat
  stop : Nat
deriving DecidableEq

/-- The slots a worker has still to take, in its order. -/
def Range.slots (range : Range) : List Nat :=
  List.range' range.next (range.stop - range.next)

/-- The slots no worker has taken yet. -/
def pending (workers : List Range) : List Nat :=
  workers.flatMap Range.slots

/-- Some worker takes its next slot. -/
inductive Takes : List Range → Nat → List Range → Prop where
  | first {range : Range} (hmore : range.next < range.stop) (rest : List Range) :
      Takes (range :: rest) range.next (⟨range.next + 1, range.stop⟩ :: rest)
  | other (range : Range) {rest rest' : List Range} {slot : Nat} (htakes : Takes rest slot rest') :
      Takes (range :: rest) slot (range :: rest')

/-- One range for all, or one for each worker. -/
def split (total workers : Nat) : List Range :=
  if workers ≤ 1 then [⟨0, total⟩]
  else
    let size := chunkCount total workers
    (List.range (chunkCount total size)).map fun i => ⟨i * size, min (i * size + size) total⟩

variable {workers workers' : List Range} {slot : Nat}

theorem Range.slots_of_more {range : Range} (hmore : range.next < range.stop) :
    range.slots = range.next :: Range.slots ⟨range.next + 1, range.stop⟩ := by
  have hlength : range.stop - range.next = range.stop - (range.next + 1) + 1 := by omega
  rw [Range.slots, hlength, List.range'_succ]
  rfl

/-- A slot that is taken was pending, and no other one goes. -/
theorem Takes.perm (htakes : Takes workers slot workers') :
    (pending workers).Perm (slot :: pending workers') := by
  induction htakes with
  | first hmore rest =>
      rw [pending, List.flatMap_cons, Range.slots_of_more hmore]
      exact List.Perm.refl _
  | @other range rest rest' slot _ ih =>
      rw [pending, pending, List.flatMap_cons, List.flatMap_cons]
      exact (ih.append_left range.slots).trans List.perm_middle

theorem exists_takes (hpending : pending workers ≠ []) :
    ∃ slot workers', Takes workers slot workers' := by
  induction workers with
  | nil => exact absurd rfl hpending
  | cons range rest ih =>
      by_cases hmore : range.next < range.stop
      · exact ⟨_, _, .first hmore rest⟩
      · have hnone : range.slots = [] := by
          rw [Range.slots, Nat.sub_eq_zero_of_le (Nat.le_of_not_lt hmore), List.range'_zero]
        rw [pending, List.flatMap_cons, hnone, List.nil_append] at hpending
        obtain ⟨slot, rest', htakes⟩ := ih hpending
        exact ⟨slot, range :: rest', .other range htakes⟩

/-- The first `count` ranges are the slots up to the end of the last. -/
theorem pending_ranges (total size count : Nat) :
    pending ((List.range count).map fun i => ⟨i * size, min (i * size + size) total⟩) =
      List.range (min (count * size) total) := by
  induction count with
  | zero => simp [pending]
  | succ count ih =>
      have hsplit : min ((count + 1) * size) total = min (count * size) total +
          (min (count * size + size) total - count * size) := by
        rw [Nat.add_mul, Nat.one_mul]
        omega
      have hlast : Range.slots ⟨count * size, min (count * size + size) total⟩ =
          List.range' (min (count * size) total)
            (min (count * size + size) total - count * size) := by
        rcases Nat.lt_or_ge total (count * size) with hpast | hin
        · have hnone : min (count * size + size) total - count * size = 0 := by omega
          rw [Range.slots, hnone, List.range'_zero, List.range'_zero]
        · rw [Nat.min_eq_left hin]
          rfl
      rw [pending] at ih
      rw [List.range_succ, List.map_append, pending, List.flatMap_append, ih, List.map_singleton,
        List.flatMap_singleton, hlast, hsplit, List.range_eq_range', List.range_eq_range']
      have happend := List.range'_append_1 (s := 0) (m := min (count * size) total)
        (n := min (count * size + size) total - count * size)
      rwa [Nat.zero_add] at happend

/-- The ranges are the slots, each once and in order. -/
theorem pending_split (total workers : Nat) : pending (split total workers) = List.range total := by
  rw [split]
  split_ifs with hone
  · rw [pending, List.flatMap_singleton, Range.slots, Nat.sub_zero, List.range_eq_range']
  · rw [pending_ranges]
    rcases Nat.eq_zero_or_pos total with hnone | hsome
    · subst hnone
      rw [Nat.min_zero]
    · have hsize : 0 < chunkCount total workers := (lt_chunkCount_iff (by omega)).mpr (by omega)
      have hcover : total ≤ chunkCount total (chunkCount total workers) *
          chunkCount total workers := (chunkCount_le_iff hsize).mp (Nat.le_refl _)
      rw [Nat.min_eq_right hcover]

end ForkJoin
