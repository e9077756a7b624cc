/-
What programs on a counter registry hand out, written down issue by issue.  An
issue is an output without a number, or the outputs that carry the next number
of a key.  Along any log the numbers of a key are those after its count, one by
one, and no two issues of a key share one until the counter wraps.
-/
import ShardProxy.Lib.Dispenser

namespace IssueLog

open Dispenser

universe u v w

variable {S : Type u} {K : Type v} {O : Type w}

inductive Issue (K : Type v) (O : Type w) where
  | plain (output : O)
  | numbered (key : K) (outputs : List O)

def Issue.outputs : Issue K O → List O
  | .plain output => [output]
  | .numbered _ outputs => outputs

def outputs (issues : List (Issue K O)) : List O :=
  issues.flatMap Issue.outputs

@[simp] theorem outputs_nil : outputs ([] : List (Issue K O)) = [] := rfl

@[simp] theorem outputs_cons (issue : Issue K O) (issues : List (Issue K O)) :
    outputs (issue :: issues) = issue.outputs ++ outputs issues := rfl

@[simp] theorem outputs_append (left right : List (Issue K O)) :
    outputs (left ++ right) = outputs left ++ outputs right :=
  List.flatMap_append

theorem outputs_map_plain (list : List O) :
    outputs (list.map Issue.plain : List (Issue K O)) = list := by
  induction list with
  | nil => rfl
  | cons output rest ih => rw [List.map_cons, outputs_cons, ih]; rfl

variable [DecidableEq K]

def Issue.on (key : K) : Issue K O → Option (List O)
  | .plain _ => none
  | .numbered own outputs => if own = key then some outputs else none

def issuesOn (key : K) (issues : List (Issue K O)) : List (List O) :=
  issues.filterMap (Issue.on key)

theorem issuesOn_append (key : K) (left right : List (Issue K O)) :
    issuesOn key (left ++ right) = issuesOn key left ++ issuesOn key right :=
  List.filterMap_append

@[simp] theorem issuesOn_plain (key : K) (output : O) (issues : List (Issue K O)) :
    issuesOn key (.plain output :: issues) = issuesOn key issues := rfl

theorem issuesOn_numbered (key own : K) (list : List O) (issues : List (Issue K O)) :
    issuesOn key (.numbered own list :: issues) =
      (if own = key then [list] else []) ++ issuesOn key issues := by
  by_cases hkey : own = key <;> simp [issuesOn, Issue.on, hkey]

theorem issuesOn_map_plain (key : K) (list : List O) :
    issuesOn key (list.map Issue.plain) = [] := by
  induction list with
  | nil => rfl
  | cons output rest ih => rw [List.map_cons, issuesOn_plain, ih]

theorem mem_outputs {issues : List (Issue K O)} {output : O} (hmem : output ∈ outputs issues) :
    Issue.plain output ∈ issues ∨
      ∃ key, ∃ list ∈ issuesOn key issues, output ∈ list ∧ Issue.numbered key list ∈ issues := by
  obtain ⟨issue, hissue, houtput⟩ := List.mem_flatMap.mp hmem
  cases issue with
  | plain own =>
      obtain rfl := List.mem_singleton.mp houtput
      exact Or.inl hissue
  | numbered key list =>
      refine Or.inr ⟨key, list, ?_, houtput, hissue⟩
      exact List.mem_filterMap.mpr ⟨_, hissue, if_pos rfl⟩

section Draws

variable [DecidableEq S] (stripe : K → S) (carries : K → UInt64 → O → Prop)

/-- A log of a registry: each numbered issue takes the next number of its key,
and what it hands out carries that number. -/
inductive Draws : Registry S K → List (Issue K O) → Registry S K → Prop where
  | nil (registry : Registry S K) : Draws registry [] registry
  | plain {registry after : Registry S K} {output : O} {issues : List (Issue K O)}
      (hrest : Draws registry issues after) : Draws registry (.plain output :: issues) after
  | numbered {registry after : Registry S K} {key : K} {list : List O}
      {issues : List (Issue K O)}
      (hcarries : ∀ output ∈ list, carries key (registry.value stripe key + 1) output)
      (hrest : Draws (registry.advance stripe key 1) issues after) :
      Draws registry (.numbered key list :: issues) after

variable {stripe carries} {registry middle after : Registry S K} {left right : List (Issue K O)}

theorem Draws.append (hleft : Draws stripe carries registry left middle)
    (hright : Draws stripe carries middle right after) :
    Draws stripe carries registry (left ++ right) after := by
  induction hleft with
  | nil _ => exact hright
  | plain _ ih => exact .plain (ih hright)
  | numbered hcarries _ ih => exact .numbered hcarries (ih hright)

theorem Draws.of_plain (registry : Registry S K) (list : List O) :
    Draws stripe carries registry (list.map Issue.plain) registry := by
  induction list with
  | nil => exact .nil registry
  | cons output rest ih => exact .plain ih

theorem advance_one_value (registry : Registry S K) (key other : K) :
    (registry.advance stripe key 1).value stripe other =
      registry.value stripe other + UInt64.ofNat (if key = other then 1 else 0) := by
  have hvalue := registry.reserve_value stripe key other 1
  by_cases hkey : other = key
  · subst hkey
    rw [if_pos rfl] at hvalue ⊢
    exact hvalue
  · rw [if_neg hkey] at hvalue
    rw [if_neg (Ne.symm hkey)]
    exact hvalue.trans (UInt64.add_zero _).symm

theorem Draws.value (hdraws : Draws stripe carries registry left after) (key : K) :
    after.value stripe key =
      registry.value stripe key + UInt64.ofNat (issuesOn key left).length := by
  induction hdraws with
  | nil registry => exact (UInt64.add_zero _).symm
  | plain _ ih => exact ih
  | @numbered registry after own list issues _ _ ih =>
      rw [ih, advance_one_value, issuesOn_numbered, List.length_append, UInt64.add_assoc,
        ← UInt64.ofNat_add]
      congr 2
      split <;> simp

/-- Issue `i` of a key carries the number `i + 1` after the key's count. -/
theorem Draws.carries_issue (hdraws : Draws stripe carries registry left after) {key : K} {i : Nat}
    {list : List O} (hissue : (issuesOn key left)[i]? = some list) {output : O}
    (houtput : output ∈ list) :
    carries key (registry.value stripe key + UInt64.ofNat i + 1) output := by
  induction hdraws generalizing i with
  | nil registry => cases hissue
  | plain _ ih => exact ih hissue
  | @numbered registry after own own_list issues hcarries _ ih =>
      rw [issuesOn_numbered] at hissue
      by_cases hkey : own = key
      · subst hkey
        rw [if_pos rfl] at hissue
        cases i with
        | zero =>
            obtain rfl : own_list = list := by simpa using hissue
            have hfirst := hcarries output houtput
            rw [show registry.value stripe own + UInt64.ofNat 0 = registry.value stripe own from
              UInt64.add_zero _]
            exact hfirst
        | succ i =>
            have hlater := ih (by simpa using hissue)
            rw [advance_one_value, if_pos rfl, UInt64.add_assoc _ (UInt64.ofNat 1),
              ← UInt64.ofNat_add, Nat.add_comm 1 i] at hlater
            exact hlater
      · rw [if_neg hkey, List.nil_append] at hissue
        have hlater := ih hissue
        rw [advance_one_value, if_neg hkey] at hlater
        rwa [show registry.value stripe key + UInt64.ofNat 0 = registry.value stripe key from
          UInt64.add_zero _] at hlater

theorem toNat_number {count : UInt64} {i n : Nat} (hroom : count.toNat + n < 2 ^ 64)
    (hi : i < n) : (count + UInt64.ofNat i + 1).toNat = count.toNat + i + 1 := by
  rw [UInt64.toNat_add, UInt64.toNat_add, UInt64.toNat_ofNat_of_lt' (show i < 2 ^ 64 by omega),
    Nat.mod_eq_of_lt (show count.toNat + i < 2 ^ 64 by omega)]
  exact Nat.mod_eq_of_lt (by change count.toNat + i + 1 < 2 ^ 64; omega)

/-- What a watcher of a key picks out of a log, when each issue of the key shows
it that issue's number and nothing else shows it any: the numbers after the key's
count, in order. -/
theorem Draws.picked (hdraws : Draws stripe carries registry left after) (key : K)
    (pick : O → Option Nat)
    (hplain : ∀ output, .plain output ∈ left → pick output = none)
    (hown : ∀ list number, .numbered key list ∈ left →
      (∀ output ∈ list, carries key number output) → list.filterMap pick = [number.toNat])
    (hother : ∀ own list number, own ≠ key → .numbered own list ∈ left →
      (∀ output ∈ list, carries own number output) → list.filterMap pick = [])
    (hroom : (registry.value stripe key).toNat + (issuesOn key left).length < 2 ^ 64) :
    (outputs left).filterMap pick =
      List.range' ((registry.value stripe key).toNat + 1) (issuesOn key left).length := by
  induction hdraws with
  | nil registry => rfl
  | @plain registry after output issues _ ih =>
      rw [issuesOn_plain] at hroom ⊢
      have hfirst : pick output = none := hplain output List.mem_cons_self
      rw [outputs_cons, List.filterMap_append]
      simp only [Issue.outputs, List.filterMap_cons, hfirst, List.filterMap_nil, List.nil_append]
      exact ih (fun later hlater => hplain later (List.mem_cons_of_mem _ hlater))
        (fun list number hlater => hown list number (List.mem_cons_of_mem _ hlater))
        (fun own list number hne hlater => hother own list number hne
          (List.mem_cons_of_mem _ hlater)) hroom
  | @numbered registry after own list issues hcarries _ ih =>
      have hrest := ih (fun later hlater => hplain later (List.mem_cons_of_mem _ hlater))
        (fun list number hlater => hown list number (List.mem_cons_of_mem _ hlater))
        (fun own list number hne hlater => hother own list number hne
          (List.mem_cons_of_mem _ hlater))
      rw [outputs_cons, List.filterMap_append, issuesOn_numbered]
      rw [issuesOn_numbered] at hroom
      by_cases hkey : own = key
      · subst hkey
        rw [if_pos rfl, List.length_append, List.length_singleton] at hroom ⊢
        have hnext : ((registry.advance stripe own 1).value stripe own).toNat =
            (registry.value stripe own).toNat + 1 := by
          rw [advance_one_value, if_pos rfl, UInt64.toNat_add]
          apply Nat.mod_eq_of_lt
          change (registry.value stripe own).toNat + 1 < 2 ^ 64
          omega
        rw [hnext] at hrest
        have hpicked : (Issue.numbered own list).outputs.filterMap pick =
            [(registry.value stripe own).toNat + 1] := by
          rw [← hnext, advance_one_value, if_pos rfl]
          exact hown list _ List.mem_cons_self hcarries
        rw [hpicked, hrest (by omega), Nat.add_comm 1, List.range'_succ]
        rfl
      · rw [if_neg hkey, List.nil_append] at hroom ⊢
        have hsame : (registry.advance stripe own 1).value stripe key =
            registry.value stripe key := by
          rw [advance_one_value, if_neg hkey]
          exact UInt64.add_zero _
        rw [hsame] at hrest
        have hpicked : (Issue.numbered own list).outputs.filterMap pick = [] :=
          hother own list _ hkey List.mem_cons_self hcarries
        rw [hpicked, List.nil_append]
        exact hrest hroom

end Draws

end IssueLog
