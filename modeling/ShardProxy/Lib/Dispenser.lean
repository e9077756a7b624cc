/-
A striped registry of 64-bit counters.  A key's counter is found, or made, in
the map of the key's stripe; adding to it is a second and separate step on the
counter itself.  Programs reserve blocks of numbers from such a registry and
hand outputs to a queue of their own.
-/
import Mathlib.Logic.Function.Basic
import Mathlib.Tactic

namespace Dispenser

universe u v w

/-- One map per stripe from keys to counter addresses, and the counters.  No
two entries share an address, so a counter belongs to one key for good. -/
@[ext] structure Registry (S : Type u) (K : Type v) where
  slot : S → K → Option Nat
  counter : Nat → UInt64
  next : Nat
  allocated : ∀ {stripe key ref}, slot stripe key = some ref → ref < next
  separate : ∀ {stripe other key key' ref},
    slot stripe key = some ref → slot other key' = some ref →
      stripe = other ∧ key = key'

variable {S : Type u} {K : Type v}

def Registry.empty : Registry S K where
  slot _ _ := none
  counter _ := 0
  next := 0
  allocated h := by cases h
  separate h := by cases h

variable (stripe : K → S)

/-- Add `n` to the counter at an address and return its new value. -/
def Registry.add (registry : Registry S K) (ref : Nat) (n : UInt64) :
    UInt64 × Registry S K :=
  (registry.counter ref + n,
    { registry with
      counter := Function.update registry.counter ref (registry.counter ref + n) })

/-- The count a key has reached; zero for a key never seen. -/
def Registry.value (registry : Registry S K) (key : K) : UInt64 :=
  match registry.slot (stripe key) key with
  | some ref => registry.counter ref
  | none => 0

@[simp] theorem Registry.add_slot (registry : Registry S K) (ref : Nat) (n : UInt64) :
    (registry.add ref n).2.slot = registry.slot := rfl

theorem Registry.add_value_self (registry : Registry S K) {key : K} {ref : Nat} (n : UInt64)
    (hslot : registry.slot (stripe key) key = some ref) :
    (registry.add ref n).2.value stripe key = registry.value stripe key + n := by
  simp [Registry.value, Registry.add, hslot]

/-- Adding to one key's counter leaves every other key's count alone. -/
theorem Registry.add_value_of_ne (registry : Registry S K) {key other : K} {ref : Nat}
    (n : UInt64) (hslot : registry.slot (stripe key) key = some ref) (hne : other ≠ key) :
    (registry.add ref n).2.value stripe other = registry.value stripe other := by
  simp only [Registry.value, Registry.add]
  cases hother : registry.slot (stripe other) other with
  | none => rfl
  | some ref' =>
      have hrefs : ref' ≠ ref := by
        rintro rfl
        exact hne (registry.separate hother hslot).2
      simp [Function.update_of_ne hrefs]

theorem Registry.add_fst (registry : Registry S K) {key : K} {ref : Nat} (n : UInt64)
    (hslot : registry.slot (stripe key) key = some ref) :
    (registry.add ref n).1 = registry.value stripe key + n := by
  simp [Registry.value, Registry.add, hslot]

/-- A program that reserves numbers and sends outputs. -/
inductive Prog (K : Type v) (O : Type w) (R : Type w) where
  | done (result : R)
  | reserve (key : K) (n : Nat) (next : UInt64 → Prog K O R)
  | emit (output : O) (next : Prog K O R)

variable {O R R' : Type w}

def Prog.bind : Prog K O R → (R → Prog K O R') → Prog K O R'
  | .done result, f => f result
  | .reserve key n next, f => .reserve key n fun first => (next first).bind f
  | .emit output next, f => .emit output (next.bind f)

instance : Monad (Prog K O) where
  pure := Prog.done
  bind := Prog.bind

/-- Reservations are never empty, and every output is sent right after one,
carries its key and first number, and is the only output to do so.  `held` is
the reservation the program starts with. -/
def Prog.Stamped (carries : K → UInt64 → O → Prop) :
    Option (K × UInt64) → Prog K O R → Prop
  | _, .done _ => True
  | _, .reserve key n next =>
      0 < n ∧ ∀ first, (next first).Stamped carries (some (key, first))
  | held, .emit output next =>
      (∃ key first, held = some (key, first) ∧ carries key first output) ∧
        next.Stamped carries none

/-- Some way through the program reserves on a key. -/
def Prog.Reserves (key : K) : Prog K O R → Prop
  | .done _ => False
  | .reserve own _ next => own = key ∨ ∃ first, (next first).Reserves key
  | .emit _ next => next.Reserves key

theorem Prog.Reserves.of_bind {key : K} {prog : Prog K O R} {f : R → Prog K O R'}
    (hbind : (prog >>= f).Reserves key) :
    prog.Reserves key ∨ ∃ result, (f result).Reserves key := by
  change (prog.bind f).Reserves key at hbind
  induction prog with
  | done result => exact Or.inr ⟨result, hbind⟩
  | reserve own n next ih =>
      rcases hbind with hown | ⟨first, hnext⟩
      · exact Or.inl (Or.inl hown)
      · exact (ih first hnext).imp (fun h => Or.inr ⟨first, h⟩) id
  | emit output next ih => exact ih hbind

/-- Whatever numbers it is given, the program may end in a result and these outputs. -/
def Prog.Emits : Prog K O R → R → List O → Prop
  | .done own, result, outputs => result = own ∧ outputs = []
  | .reserve _ _ next, result, outputs => ∃ first, (next first).Emits result outputs
  | .emit output next, result, outputs =>
      ∃ rest, outputs = output :: rest ∧ next.Emits result rest

theorem Prog.Emits.of_bind {prog : Prog K O R} {f : R → Prog K O R'} {result : R'}
    {outputs : List O} (hbind : (prog >>= f).Emits result outputs) :
    ∃ middle first second, prog.Emits middle first ∧ (f middle).Emits result second ∧
      outputs = first ++ second := by
  change (prog.bind f).Emits result outputs at hbind
  induction prog generalizing outputs with
  | done own => exact ⟨own, [], outputs, ⟨rfl, rfl⟩, hbind, rfl⟩
  | reserve key n next ih =>
      obtain ⟨number, hnext⟩ := hbind
      obtain ⟨middle, first, second, hprog, hf, houtputs⟩ := ih number hnext
      exact ⟨middle, first, second, ⟨number, hprog⟩, hf, houtputs⟩
  | emit output next ih =>
      obtain ⟨rest, rfl, hnext⟩ := hbind
      obtain ⟨middle, first, second, hprog, hf, rfl⟩ := ih hnext
      exact ⟨middle, output :: first, second, ⟨first, rfl, hprog⟩, hf, rfl⟩

section Stamped

variable {carries : K → UInt64 → O → Prop}

@[simp] theorem Prog.stamped_done (held : Option (K × UInt64)) (result : R) :
    (Prog.done result : Prog K O R).Stamped carries held := trivial

@[simp] theorem Prog.stamped_pure (held : Option (K × UInt64)) (result : R) :
    (pure result : Prog K O R).Stamped carries held := trivial

/-- A program that needs no reservation to start with may be given one. -/
theorem Prog.Stamped.of_none {prog : Prog K O R} (hprog : prog.Stamped carries none)
    (held : Option (K × UInt64)) : prog.Stamped carries held := by
  cases prog with
  | done result => trivial
  | reserve key n next => exact hprog
  | emit output next =>
      obtain ⟨⟨key, first, hheld, _⟩, _⟩ := hprog
      cases hheld

theorem Prog.Stamped.bind {prog : Prog K O R} {f : R → Prog K O R'}
    {held : Option (K × UInt64)} (hprog : prog.Stamped carries held)
    (hf : ∀ result, (f result).Stamped carries none) :
    (prog >>= f).Stamped carries held := by
  change (prog.bind f).Stamped carries held
  induction prog generalizing held with
  | done result => exact (hf result).of_none held
  | reserve key n next ih =>
      refine ⟨hprog.1, fun first => ?_⟩
      exact ih first (hprog.2 first)
  | emit output next ih => exact ⟨hprog.1, ih hprog.2⟩

end Stamped

variable [DecidableEq S] [DecidableEq K]

/-- Map entries with `key` registered at a fresh address. -/
def insertSlot (registry : Registry S K) (home : S) (key : K) (s : S) (k : K) :
    Option Nat :=
  if s = home ∧ k = key then some registry.next else registry.slot s k

theorem insertSlot_eq_some {registry : Registry S K} {home s : S} {key k : K} {ref : Nat}
    (h : insertSlot registry home key s k = some ref) :
    ((s = home ∧ k = key) ∧ ref = registry.next) ∨ registry.slot s k = some ref := by
  rw [insertSlot] at h
  split at h
  · rename_i hhere
    left
    exact ⟨hhere, (Option.some.inj h).symm⟩
  · exact Or.inr h

/-- Register `key` with a zero counter at a fresh address. -/
def Registry.insert (registry : Registry S K) (home : S) (key : K) : Registry S K where
  slot := insertSlot registry home key
  counter := Function.update registry.counter registry.next 0
  next := registry.next + 1
  allocated := by
    intro s k ref h
    rcases insertSlot_eq_some h with ⟨_, rfl⟩ | hold
    · exact Nat.lt_succ_self _
    · exact Nat.lt_succ_of_lt (registry.allocated hold)
  separate := by
    intro s s' k k' ref h h'
    rcases insertSlot_eq_some h with ⟨⟨rfl, rfl⟩, rfl⟩ | hold <;>
      rcases insertSlot_eq_some h' with ⟨⟨rfl, rfl⟩, hnew⟩ | hold'
    · exact ⟨rfl, rfl⟩
    · exact absurd (registry.allocated hold') (Nat.lt_irrefl _)
    · subst hnew
      exact absurd (registry.allocated hold) (Nat.lt_irrefl _)
    · exact registry.separate hold hold'

/-- Look `key` up in its stripe's map, inserting it on first sight. -/
def Registry.resolve (registry : Registry S K) (key : K) : Nat × Registry S K :=
  match registry.slot (stripe key) key with
  | some ref => (ref, registry)
  | none => (registry.next, registry.insert (stripe key) key)

/-- Reserve `n` consecutive numbers of `key`: the first of them, and the
registry after the lookup and the addition. -/
def Registry.reserve (registry : Registry S K) (key : K) (n : Nat) :
    UInt64 × Registry S K :=
  let (ref, resolved) := registry.resolve stripe key
  let (after, added) := resolved.add ref (UInt64.ofNat n)
  (after - UInt64.ofNat n + 1, added)

theorem Registry.resolve_slot (registry : Registry S K) (key : K) :
    (registry.resolve stripe key).2.slot (stripe key) key =
      some (registry.resolve stripe key).1 := by
  rw [Registry.resolve]
  split
  · assumption
  · simp [Registry.insert, insertSlot]

/-- Looking a key up forgets no other key. -/
theorem Registry.resolve_slot_of_some (registry : Registry S K) (key : K)
    {s : S} {other : K} {ref : Nat} (hslot : registry.slot s other = some ref) :
    (registry.resolve stripe key).2.slot s other = some ref := by
  rw [Registry.resolve]
  split
  · exact hslot
  · rename_i hnone
    have hne : ¬ (s = stripe key ∧ other = key) := by
      rintro ⟨rfl, rfl⟩
      rw [hslot] at hnone
      cases hnone
    simp [Registry.insert, insertSlot, hne, hslot]

@[simp] theorem Registry.resolve_value (registry : Registry S K) (key other : K) :
    (registry.resolve stripe key).2.value stripe other = registry.value stripe other := by
  rw [Registry.resolve]
  split
  · rfl
  · rename_i hnone
    by_cases hkey : other = key
    · subst hkey
      simp [Registry.value, Registry.insert, insertSlot, hnone]
    · simp only [Registry.value, Registry.insert, insertSlot, hkey, and_false, ↓reduceIte]
      cases hslot : registry.slot (stripe other) other with
      | none => rfl
      | some ref =>
          have hlt := registry.allocated hslot
          simp [Function.update_of_ne (Nat.ne_of_lt hlt)]

theorem Registry.reserve_fst (registry : Registry S K) (key : K) (n : Nat) :
    (registry.reserve stripe key n).1 = registry.value stripe key + 1 := by
  have hslot := registry.resolve_slot stripe key
  have hadd := Registry.add_fst stripe (registry.resolve stripe key).2 (UInt64.ofNat n) hslot
  rw [Registry.resolve_value] at hadd
  simp only [Registry.reserve, hadd]
  rw [UInt64.add_sub_cancel]

theorem Registry.reserve_value (registry : Registry S K) (key other : K) (n : Nat) :
    (registry.reserve stripe key n).2.value stripe other =
      if other = key then registry.value stripe key + UInt64.ofNat n
      else registry.value stripe other := by
  have hslot := registry.resolve_slot stripe key
  by_cases hkey : other = key
  · subst hkey
    have hadd := Registry.add_value_self stripe (registry.resolve stripe other).2
      (UInt64.ofNat n) hslot
    rw [Registry.resolve_value] at hadd
    simpa [Registry.reserve] using hadd
  · have hadd := Registry.add_value_of_ne stripe (registry.resolve stripe key).2
      (UInt64.ofNat n) hslot hkey
    rw [Registry.resolve_value] at hadd
    simpa [Registry.reserve, hkey] using hadd

/-- Looking up a key that is already registered changes nothing. -/
theorem Registry.resolve_of_some (registry : Registry S K) {key : K} {ref : Nat}
    (hslot : registry.slot (stripe key) key = some ref) :
    registry.resolve stripe key = (ref, registry) := by
  rw [Registry.resolve]
  split
  · rename_i ref' hslot'
    rw [hslot] at hslot'
    rw [Option.some.inj hslot']
  · rename_i hnone
    rw [hslot] at hnone
    cases hnone

/-- Two reservations in a row leave the registry as one of both sizes would. -/
theorem Registry.reserve_reserve (registry : Registry S K) (key : K) (m n : Nat) :
    ((registry.reserve stripe key m).2.reserve stripe key n).2 =
      (registry.reserve stripe key (m + n)).2 := by
  have hslot := registry.resolve_slot stripe key
  have hagain : (registry.reserve stripe key m).2.resolve stripe key =
      ((registry.resolve stripe key).1, (registry.reserve stripe key m).2) :=
    Registry.resolve_of_some stripe _ hslot
  rw [Registry.reserve, hagain]
  ext1
  · rfl
  · simp [Registry.reserve, Registry.add, UInt64.ofNat_add, UInt64.add_assoc]
  · rfl

/-- The registry after `n` reservations of one number each. -/
def Registry.advance (registry : Registry S K) (key : K) : Nat → Registry S K
  | 0 => registry
  | n + 1 => (registry.reserve stripe key 1).2.advance key n

/-- One at a time or in one block, the counters end up the same. -/
theorem Registry.advance_succ (registry : Registry S K) (key : K) (n : Nat) :
    registry.advance stripe key (n + 1) = (registry.reserve stripe key (n + 1)).2 := by
  induction n generalizing registry with
  | zero => rfl
  | succ n ih =>
      rw [Registry.advance, ih, Registry.reserve_reserve, Nat.add_comm 1]

/-- What running a program leaves behind. -/
structure Ran (S : Type u) (K : Type v) (O R : Type w) where
  result : R
  registry : Registry S K
  outputs : List O

/-- Run a program alone, to its end. -/
def Prog.exec : Prog K O R → Registry S K → Ran S K O R
  | .done result, registry => ⟨result, registry, []⟩
  | .reserve key n next, registry =>
      (next (registry.reserve stripe key n).1).exec (registry.reserve stripe key n).2
  | .emit output next, registry =>
      let rest := next.exec registry
      ⟨rest.result, rest.registry, output :: rest.outputs⟩

@[simp] theorem Prog.exec_pure (result : R) (registry : Registry S K) :
    (pure result : Prog K O R).exec stripe registry = ⟨result, registry, []⟩ := rfl

@[simp] theorem Prog.exec_done (result : R) (registry : Registry S K) :
    (Prog.done result : Prog K O R).exec stripe registry = ⟨result, registry, []⟩ := rfl

@[simp] theorem Prog.exec_reserve (key : K) (n : Nat) (next : UInt64 → Prog K O R)
    (registry : Registry S K) :
    (Prog.reserve key n next).exec stripe registry =
      (next (registry.value stripe key + 1)).exec stripe
        (registry.reserve stripe key n).2 := by
  rw [Prog.exec, Registry.reserve_fst]

@[simp] theorem Prog.exec_emit (output : O) (next : Prog K O R) (registry : Registry S K) :
    (Prog.emit output next).exec stripe registry =
      ⟨(next.exec stripe registry).result, (next.exec stripe registry).registry,
        output :: (next.exec stripe registry).outputs⟩ := rfl

/-- Running a sequence runs the second program where the first one stopped. -/
@[simp] theorem Prog.exec_bind (prog : Prog K O R) (f : R → Prog K O R')
    (registry : Registry S K) :
    (prog >>= f).exec stripe registry =
      let first := prog.exec stripe registry
      let second := (f first.result).exec stripe first.registry
      ⟨second.result, second.registry, first.outputs ++ second.outputs⟩ := by
  change (prog.bind f).exec stripe registry = _
  induction prog generalizing registry with
  | done result => rfl
  | reserve key n next ih => exact ih _ _
  | emit output next ih =>
      simp only [Prog.bind, Prog.exec, ih, List.cons_append]

end Dispenser
