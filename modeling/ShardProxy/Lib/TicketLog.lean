/-
Logs of ticket reservations.  A dispenser keeps one 64-bit counter per key and
grants blocks of consecutive numbers from it; the log is the grants in the
order their counters moved.  A log in which every block starts right after the
blocks before it issues, on each key, exactly one run of numbers from one up.
-/
import Mathlib.Data.List.Basic
import Mathlib.Data.List.Range
import Mathlib.Tactic

namespace TicketLog

universe u v

variable {W : Type u} {K : Type v}

/-- `owner` was granted the `count` consecutive numbers of `key` from `first`
on, in 64-bit arithmetic. -/
structure Grant (W : Type u) (K : Type v) where
  owner : W
  key : K
  first : UInt64
  count : Nat
deriving Repr

def Grant.numbers (grant : Grant W K) : List UInt64 :=
  (List.range grant.count).map fun i => grant.first + UInt64.ofNat i

/-- A block that continues a run of numbers continues it one by one. -/
theorem numbers_eq_of_first (grant : Grant W K) (start : Nat)
    (hfirst : grant.first = UInt64.ofNat (start + 1)) :
    grant.numbers =
      (List.range grant.count).map fun i => UInt64.ofNat (start + i + 1) := by
  apply List.map_congr_left
  intro i _
  rw [hfirst, ← UInt64.ofNat_add]
  congr 1
  omega

variable [DecidableEq K]

/-- How many numbers a log has granted on a key. -/
def total (log : List (Grant W K)) (key : K) : Nat :=
  ((log.filter fun grant => grant.key = key).map Grant.count).sum

/-- The numbers a log has granted on a key, in log order. -/
def issued (log : List (Grant W K)) (key : K) : List UInt64 :=
  (log.filter fun grant => grant.key = key).flatMap Grant.numbers

/-- Every grant starts where the earlier grants on its key end. -/
def Contiguous (log : List (Grant W K)) : Prop :=
  ∀ earlier grant later, log = earlier ++ grant :: later →
    grant.first = UInt64.ofNat (total earlier grant.key + 1)

@[simp] theorem total_nil (key : K) : total ([] : List (Grant W K)) key = 0 := rfl

theorem total_concat (log : List (Grant W K)) (grant : Grant W K) (key : K) :
    total (log ++ [grant]) key =
      total log key + if grant.key = key then grant.count else 0 := by
  by_cases hkey : grant.key = key <;> simp [total, List.filter_append, hkey]

theorem issued_concat (log : List (Grant W K)) (grant : Grant W K) (key : K) :
    issued (log ++ [grant]) key =
      issued log key ++ if grant.key = key then grant.numbers else [] := by
  by_cases hkey : grant.key = key <;> simp [issued, List.filter_append, hkey]

theorem contiguous_nil : Contiguous ([] : List (Grant W K)) := by
  intro earlier grant later hsplit
  simp at hsplit

theorem contiguous_concat_iff (log : List (Grant W K)) (grant : Grant W K) :
    Contiguous (log ++ [grant]) ↔
      Contiguous log ∧ grant.first = UInt64.ofNat (total log grant.key + 1) := by
  constructor
  · intro hlog
    refine ⟨?_, hlog log grant [] rfl⟩
    intro earlier old later hsplit
    exact hlog earlier old (later ++ [grant]) (by simp [hsplit])
  · rintro ⟨hlog, hgrant⟩ earlier old later hsplit
    rcases List.eq_nil_or_concat later with rfl | ⟨rest, last, rfl⟩
    · obtain ⟨rfl, hlast⟩ := List.append_inj' hsplit rfl
      obtain rfl : grant = old := by simpa using hlast
      exact hgrant
    · have hassoc : log ++ [grant] = (earlier ++ old :: rest) ++ [last] := by
        simpa using hsplit
      exact hlog earlier old rest (List.append_inj' hassoc rfl).1

/-- The numbers granted on a key are one, two, three and so on, modulo the
counter's width. -/
theorem Contiguous.issued_eq {log : List (Grant W K)} (hlog : Contiguous log) (key : K) :
    issued log key =
      (List.range (total log key)).map fun i => UInt64.ofNat (i + 1) := by
  induction log using List.reverseRecOn with
  | nil => rfl
  | append_singleton log grant ih =>
      obtain ⟨hold, hgrant⟩ := (contiguous_concat_iff log grant).mp hlog
      rw [issued_concat, total_concat, ih hold]
      by_cases hkey : grant.key = key
      · rw [hkey] at hgrant
        rw [if_pos hkey, if_pos hkey, List.range_add, List.map_append,
          numbers_eq_of_first grant _ hgrant, List.map_map]
        rfl
      · rw [if_neg hkey, if_neg hkey, List.append_nil, Nat.add_zero]

/-- While the counter has not wrapped, the numbers granted on a key are exactly
one up to their count, in order. -/
theorem Contiguous.issued_toNat {log : List (Grant W K)} (hlog : Contiguous log)
    {key : K} (hbound : total log key < 2 ^ 64) :
    (issued log key).map UInt64.toNat = List.range' 1 (total log key) := by
  rw [hlog.issued_eq key, List.map_map, List.range'_eq_map_range]
  apply List.map_congr_left
  intro i hi
  rw [List.mem_range] at hi
  have hlt : i + 1 < 2 ^ 64 := by omega
  rw [Function.comp_apply, UInt64.toNat_ofNat_of_lt' hlt]
  omega

theorem Contiguous.grant_range {log : List (Grant W K)} (hlog : Contiguous log)
    {grant : Grant W K} (hmem : grant ∈ log) (hbound : total log grant.key < 2 ^ 64)
    (hcount : 0 < grant.count) :
    1 ≤ grant.first.toNat ∧
      grant.first.toNat + grant.count ≤ total log grant.key + 1 := by
  induction log using List.reverseRecOn with
  | nil => simp at hmem
  | append_singleton log last ih =>
      obtain ⟨hold, hlast⟩ := (contiguous_concat_iff log last).mp hlog
      rw [total_concat] at hbound ⊢
      rcases List.mem_append.mp hmem with hearlier | hsame
      · have hrange := ih hold hearlier (by omega)
        omega
      · obtain rfl : grant = last := by simpa using hsame
        rw [if_pos rfl] at hbound ⊢
        have hlt : total log grant.key + 1 < 2 ^ 64 := by omega
        rw [hlast, UInt64.toNat_ofNat_of_lt' hlt]
        omega

/-- A block of `n` is `n` consecutive natural numbers while nothing wraps. -/
theorem Contiguous.numbers_toNat {log : List (Grant W K)} (hlog : Contiguous log)
    {grant : Grant W K} (hmem : grant ∈ log) (hbound : total log grant.key < 2 ^ 64) :
    grant.numbers.map UInt64.toNat = List.range' grant.first.toNat grant.count := by
  rcases Nat.eq_zero_or_pos grant.count with hzero | hcount
  · simp [Grant.numbers, hzero]
  · have hrange := hlog.grant_range hmem hbound hcount
    rw [Grant.numbers, List.map_map, List.range'_eq_map_range]
    apply List.map_congr_left
    intro i hi
    rw [List.mem_range] at hi
    have hlt : i < 2 ^ 64 := by omega
    rw [Function.comp_apply, UInt64.toNat_add, UInt64.toNat_ofNat_of_lt' hlt]
    omega

/-- On one key, an earlier block ends before a later one starts. -/
theorem Contiguous.ordered {log : List (Grant W K)} (hlog : Contiguous log) {key : K}
    (hbound : total log key < 2 ^ 64) :
    (log.filter fun grant => grant.key = key).Pairwise fun earlier later =>
      0 < earlier.count → 0 < later.count →
        earlier.first.toNat + earlier.count ≤ later.first.toNat := by
  induction log using List.reverseRecOn with
  | nil => simp
  | append_singleton log last ih =>
      obtain ⟨hold, hlast⟩ := (contiguous_concat_iff log last).mp hlog
      rw [total_concat] at hbound
      rw [List.filter_append, List.pairwise_append]
      refine ⟨ih hold (by omega), ?_, ?_⟩
      · by_cases hkey : last.key = key <;> simp [hkey]
      · intro earlier hearlier later hlater hpos hcount
        obtain ⟨hmem, rfl⟩ : earlier ∈ log ∧ earlier.key = key := by
          simpa using hearlier
        obtain ⟨rfl, hkey⟩ : later = last ∧ later.key = earlier.key := by
          simpa using hlater
        rw [if_pos hkey] at hbound
        have hrange := hold.grant_range hmem (by omega) hpos
        have hlt : total log earlier.key + 1 < 2 ^ 64 := by omega
        rw [hlast, hkey, UInt64.toNat_ofNat_of_lt' hlt]
        exact hrange.2

/-- No number is granted twice on a key. -/
theorem Contiguous.disjoint {log : List (Grant W K)} (hlog : Contiguous log) {key : K}
    (hbound : total log key < 2 ^ 64) :
    (log.filter fun grant => grant.key = key).Pairwise fun earlier later =>
      List.Disjoint earlier.numbers later.numbers := by
  refine (hlog.ordered hbound).imp_of_mem ?_
  intro earlier later hearlier hlater hordered number hin hin'
  obtain ⟨hmem, rfl⟩ : earlier ∈ log ∧ earlier.key = key := by simpa using hearlier
  obtain ⟨hmem', hkey⟩ : later ∈ log ∧ later.key = earlier.key := by simpa using hlater
  have hrange := hlog.numbers_toNat hmem hbound
  have hrange' := hlog.numbers_toNat hmem' (by rw [hkey]; exact hbound)
  have hlow : number.toNat ∈ List.range' earlier.first.toNat earlier.count :=
    hrange ▸ List.mem_map_of_mem hin
  have hhigh : number.toNat ∈ List.range' later.first.toNat later.count :=
    hrange' ▸ List.mem_map_of_mem hin'
  rw [List.mem_range'_1] at hlow hhigh
  have hgap := hordered (by omega) (by omega)
  omega

end TicketLog
