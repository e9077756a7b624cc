/-
Workers that share one counter registry.  Each worker runs programs of its
own; finding a counter, adding to it and sending an output are separate steps,
and the workers' steps interleave in any order.  The machine keeps a log of the
blocks granted so far, and marks every output with the block it was sent on.
-/
import ShardProxy.Lib.Dispenser
import ShardProxy.Lib.TicketLog

set_option linter.unusedSectionVars false

namespace Dispenser

open TicketLog

universe u v w x

variable {W : Type x} {S : Type u} {K : Type v} {O : Type w}

/-- Where a worker stands: between programs, about to take the next step of
one with the last block it was granted, or holding a counter it has looked up
and not yet added to. -/
inductive Phase (W : Type x) (K : Type v) (O : Type w) where
  | idle
  | running (held : Option (Grant W K)) (prog : Prog K O PUnit)
  | resolved (ref : Nat) (key : K) (n : Nat) (next : UInt64 → Prog K O PUnit)

/-- The block a worker may still send an output on. -/
def Phase.held : Phase W K O → Option (Grant W K)
  | .idle => none
  | .running held _ => held
  | .resolved _ _ _ _ => none

/-- The shared registry, the workers, what each has queued since it last
drained its queue, and the log of grants. -/
structure Machine (W : Type x) (S : Type u) (K : Type v) (O : Type w) where
  registry : Registry S K
  phase : W → Phase W K O
  outbox : W → List (Option (Grant W K) × O)
  log : List (Grant W K)

def Machine.initial : Machine W S K O where
  registry := Registry.empty
  phase _ := .idle
  outbox _ := []
  log := []

variable [DecidableEq W] [DecidableEq S] [DecidableEq K]

def Machine.setPhase (m : Machine W S K O) (worker : W) (phase : Phase W K O) :
    Machine W S K O :=
  { m with phase := Function.update m.phase worker phase }

/-- What an addition by `worker` grants, read off the counter's new value. -/
def Machine.granted (m : Machine W S K O) (worker : W) (ref : Nat) (key : K) (n : Nat) :
    Grant W K :=
  ⟨worker, key, (m.registry.add ref (UInt64.ofNat n)).1 - UInt64.ofNat n + 1, n⟩

def Machine.afterResolve (stripe : K → S) (m : Machine W S K O) (worker : W) (key : K)
    (n : Nat) (next : UInt64 → Prog K O PUnit) : Machine W S K O where
  registry := (m.registry.resolve stripe key).2
  phase := Function.update m.phase worker
    (.resolved (m.registry.resolve stripe key).1 key n next)
  outbox := m.outbox
  log := m.log

def Machine.afterAdd (m : Machine W S K O) (worker : W) (ref : Nat) (key : K) (n : Nat)
    (next : UInt64 → Prog K O PUnit) : Machine W S K O where
  registry := (m.registry.add ref (UInt64.ofNat n)).2
  phase := Function.update m.phase worker
    (.running (some (m.granted worker ref key n))
      (next (m.granted worker ref key n).first))
  outbox := m.outbox
  log := m.log ++ [m.granted worker ref key n]

def Machine.afterEmit (m : Machine W S K O) (worker : W) (held : Option (Grant W K))
    (output : O) (next : Prog K O PUnit) : Machine W S K O where
  registry := m.registry
  phase := Function.update m.phase worker (.running none next)
  outbox := Function.update m.outbox worker (m.outbox worker ++ [(held, output)])
  log := m.log

variable (stripe : K → S) (jobs : Prog K O PUnit → Prop)

/-- One atomic step of one worker. -/
inductive Step : Machine W S K O → Machine W S K O → Prop where
  | start {m : Machine W S K O} {worker : W} {prog : Prog K O PUnit}
      (hphase : m.phase worker = .idle) (hjob : jobs prog) :
      Step m (m.setPhase worker (.running none prog))
  | resolve {m : Machine W S K O} {worker : W} {held : Option (Grant W K)} {key : K}
      {n : Nat} {next : UInt64 → Prog K O PUnit}
      (hphase : m.phase worker = .running held (.reserve key n next)) :
      Step m (m.afterResolve stripe worker key n next)
  | add {m : Machine W S K O} {worker : W} {ref : Nat} {key : K} {n : Nat}
      {next : UInt64 → Prog K O PUnit}
      (hphase : m.phase worker = .resolved ref key n next) :
      Step m (m.afterAdd worker ref key n next)
  | emit {m : Machine W S K O} {worker : W} {held : Option (Grant W K)} {output : O}
      {next : Prog K O PUnit}
      (hphase : m.phase worker = .running held (.emit output next)) :
      Step m (m.afterEmit worker held output next)
  | finish {m : Machine W S K O} {worker : W} {held : Option (Grant W K)}
      (hphase : m.phase worker = .running held (.done ⟨⟩)) :
      Step m (m.setPhase worker .idle)
  | drain {m : Machine W S K O} {worker : W} :
      Step m { m with outbox := Function.update m.outbox worker [] }

/-- The machines some interleaving of the workers' steps leads to. -/
inductive Reachable : Machine W S K O → Prop where
  | initial : Reachable Machine.initial
  | step {m m' : Machine W S K O} (hreach : Reachable m) (hstep : Step stripe jobs m m') :
      Reachable m'

variable {stripe jobs}

/-- The rule every property of all interleavings is proved by. -/
theorem Reachable.invariant {P : Machine W S K O → Prop}
    (hinitial : P Machine.initial)
    (hstep : ∀ {m m'}, P m → Step stripe jobs m m' → P m')
    {m : Machine W S K O} (hreach : Reachable stripe jobs m) : P m := by
  induction hreach with
  | initial => exact hinitial
  | step _ hnext ih => exact hstep ih hnext

variable (stripe) in
/-- The next step of a worker that is in the middle of a program. -/
def Machine.advance (m : Machine W S K O) (worker : W) : Machine W S K O :=
  match m.phase worker with
  | .idle => m
  | .running _ (.done _) => m.setPhase worker .idle
  | .running _ (.reserve key n next) => m.afterResolve stripe worker key n next
  | .running held (.emit output next) => m.afterEmit worker held output next
  | .resolved ref key n next => m.afterAdd worker ref key n next

variable (stripe) in
/-- Let the workers move in a given order. -/
def Machine.schedule (m : Machine W S K O) (workers : List W) : Machine W S K O :=
  workers.foldl (Machine.advance stripe) m

theorem Reachable.advance {m : Machine W S K O} (hreach : Reachable stripe jobs m)
    (worker : W) : Reachable stripe jobs (m.advance stripe worker) := by
  rw [Machine.advance]
  split
  · exact hreach
  · rename_i hphase
    exact hreach.step (.finish hphase)
  · rename_i hphase
    exact hreach.step (.resolve hphase)
  · rename_i hphase
    exact hreach.step (.emit hphase)
  · rename_i hphase
    exact hreach.step (.add hphase)

theorem Reachable.schedule {m : Machine W S K O} (hreach : Reachable stripe jobs m)
    (workers : List W) : Reachable stripe jobs (m.schedule stripe workers) := by
  induction workers generalizing m with
  | nil => exact hreach
  | cons worker rest ih => exact ih (hreach.advance worker)

/-- A held counter is its key's own, every key's count is what the log granted
on it, and each block starts where the earlier ones on its key end. -/
structure Accounted (stripe : K → S) (m : Machine W S K O) : Prop where
  registered : ∀ {worker ref key n next},
    m.phase worker = .resolved ref key n next →
      m.registry.slot (stripe key) key = some ref
  counted : ∀ key, m.registry.value stripe key = UInt64.ofNat (total m.log key)
  contiguous : Contiguous m.log

theorem Accounted.granted_first {m : Machine W S K O} (hm : Accounted stripe m) {worker : W}
    {ref : Nat} {key : K} {n : Nat} {next : UInt64 → Prog K O PUnit}
    (hphase : m.phase worker = .resolved ref key n next) :
    (m.granted worker ref key n).first = UInt64.ofNat (total m.log key + 1) := by
  have hadd := Registry.add_fst stripe m.registry (UInt64.ofNat n) (hm.registered hphase)
  rw [Machine.granted, hadd, UInt64.add_sub_cancel, hm.counted, UInt64.ofNat_add]
  rfl

/-- A held counter after one worker's move is that worker's, or was held before. -/
theorem resolved_of_update {phases : W → Phase W K O} {worker other : W}
    {phase : Phase W K O} {ref : Nat} {key : K} {n : Nat}
    {next : UInt64 → Prog K O PUnit}
    (hphase : Function.update phases worker phase other = .resolved ref key n next) :
    phase = .resolved ref key n next ∨ phases other = .resolved ref key n next := by
  by_cases hother : other = worker
  · subst hother
    left
    simpa using hphase
  · right
    simpa [hother] using hphase

theorem accounted_initial : Accounted stripe (Machine.initial : Machine W S K O) where
  registered h := by cases h
  counted key := by rfl
  contiguous := contiguous_nil

/-- A step that moves no counter and looks none up keeps the accounts. -/
theorem Accounted.of_same_registry {m m' : Machine W S K O} (hm : Accounted stripe m)
    (hregistry : m'.registry = m.registry) (hlog : m'.log = m.log)
    (hheld : ∀ {worker ref key n next}, m'.phase worker = .resolved ref key n next →
      m.phase worker = .resolved ref key n next) :
    Accounted stripe m' where
  registered h := by
    rw [hregistry]
    exact hm.registered (hheld h)
  counted key := by
    rw [hregistry, hlog]
    exact hm.counted key
  contiguous := by
    rw [hlog]
    exact hm.contiguous

theorem Accounted.afterResolve {m : Machine W S K O} (hm : Accounted stripe m) (worker : W)
    (key : K) (n : Nat) (next : UInt64 → Prog K O PUnit) :
    Accounted stripe (m.afterResolve stripe worker key n next) where
  registered h := by
    rcases resolved_of_update h with hnew | hold
    · cases hnew
      exact Registry.resolve_slot stripe m.registry key
    · exact Registry.resolve_slot_of_some stripe m.registry key (hm.registered hold)
  counted other :=
    (Registry.resolve_value stripe m.registry key other).trans (hm.counted other)
  contiguous := hm.contiguous

theorem Accounted.afterAdd {m : Machine W S K O} (hm : Accounted stripe m) {worker : W}
    {ref : Nat} {key : K} {n : Nat} {next : UInt64 → Prog K O PUnit}
    (hphase : m.phase worker = .resolved ref key n next) :
    Accounted stripe (m.afterAdd worker ref key n next) where
  registered h := by
    rcases resolved_of_update h with hnew | hold
    · cases hnew
    · exact hm.registered hold
  counted other := by
    have hslot := hm.registered hphase
    rw [Machine.afterAdd, total_concat]
    by_cases hkey : other = key
    · subst hkey
      have hself := Registry.add_value_self stripe m.registry (UInt64.ofNat n) hslot
      rw [hself, hm.counted, Machine.granted, if_pos rfl, UInt64.ofNat_add]
    · have hother := Registry.add_value_of_ne stripe m.registry (UInt64.ofNat n) hslot hkey
      rw [hother, hm.counted, Machine.granted, if_neg (Ne.symm hkey), Nat.add_zero]
  contiguous :=
    (contiguous_concat_iff _ _).mpr ⟨hm.contiguous, hm.granted_first hphase⟩

theorem accounted_step {m m' : Machine W S K O} (hm : Accounted stripe m)
    (hstep : Step stripe jobs m m') : Accounted stripe m' := by
  cases hstep with
  | start hphase hjob =>
      refine hm.of_same_registry rfl rfl fun h => ?_
      exact (resolved_of_update h).resolve_left (by simp)
  | resolve hphase => exact hm.afterResolve _ _ _ _
  | add hphase => exact hm.afterAdd hphase
  | emit hphase =>
      refine hm.of_same_registry rfl rfl fun h => ?_
      exact (resolved_of_update h).resolve_left (by simp)
  | finish hphase =>
      refine hm.of_same_registry rfl rfl fun h => ?_
      exact (resolved_of_update h).resolve_left (by simp)
  | drain => exact hm.of_same_registry rfl rfl id

theorem Reachable.accounted {m : Machine W S K O} (hreach : Reachable stripe jobs m) :
    Accounted stripe m :=
  hreach.invariant accounted_initial accounted_step

/-- A step leaves a key's count alone, or is the one that logs a grant on it. -/
theorem step_value {m m' : Machine W S K O} (hm : Accounted stripe m)
    (hstep : Step stripe jobs m m') (key : K) :
    m'.registry.value stripe key = m.registry.value stripe key ∨
      ∃ grant, m'.log = m.log ++ [grant] ∧ grant.key = key := by
  cases hstep with
  | start hphase hjob => exact Or.inl rfl
  | resolve hphase => exact Or.inl (Registry.resolve_value stripe m.registry _ key)
  | @add worker ref own n next hphase =>
      by_cases hkey : key = own
      · exact Or.inr ⟨_, rfl, hkey.symm⟩
      · exact Or.inl (Registry.add_value_of_ne stripe m.registry _
          (hm.registered hphase) hkey)
  | emit hphase => exact Or.inl rfl
  | finish hphase => exact Or.inl rfl
  | drain => exact Or.inl rfl

/-- The blocks a worker's queued outputs were sent on, and the one it may still
send on, in order. -/
def Machine.marks (m : Machine W S K O) (worker : W) : List (Grant W K) :=
  (m.outbox worker).filterMap Prod.fst ++ (m.phase worker).held.toList

/-- A worker marks its outputs with its own grants, each at most once and in the
order they were granted. -/
def Ordered (m : Machine W S K O) : Prop :=
  ∀ worker, (m.marks worker).Sublist (m.log.filter fun grant => grant.owner = worker)

theorem ordered_initial : Ordered (Machine.initial : Machine W S K O) := by
  intro worker
  exact List.Sublist.refl []

/-- A step that logs nothing and adds no mark keeps the order of the marks. -/
theorem Ordered.of_sublist {m m' : Machine W S K O} (hm : Ordered m) (hlog : m'.log = m.log)
    (hmarks : ∀ worker, (m'.marks worker).Sublist (m.marks worker)) : Ordered m' := by
  intro worker
  rw [hlog]
  exact (hmarks worker).trans (hm worker)

/-- Forgetting the held block of one worker drops at most its last mark. -/
theorem marks_update_sublist {m m' : Machine W S K O} {worker : W} {phase : Phase W K O}
    (houtbox : m'.outbox = m.outbox)
    (hphase : m'.phase = Function.update m.phase worker phase) (hheld : phase.held = none)
    (other : W) : (m'.marks other).Sublist (m.marks other) := by
  rw [Machine.marks, Machine.marks, houtbox, hphase]
  by_cases hother : other = worker
  · subst hother
    simp [hheld]
  · simp [hother]

theorem Ordered.afterAdd {m : Machine W S K O} (hm : Ordered m) {worker : W} {ref : Nat}
    {key : K} {n : Nat} {next : UInt64 → Prog K O PUnit}
    (hphase : m.phase worker = .resolved ref key n next) :
    Ordered (m.afterAdd worker ref key n next) := by
  intro other
  have hold := hm other
  simp only [Machine.afterAdd, Machine.marks, List.filter_append]
  by_cases hother : other = worker
  · subst hother
    rw [Machine.marks, hphase, Phase.held, Option.toList_none, List.append_nil] at hold
    have hlast : List.filter (fun grant => decide (grant.owner = other))
        [m.granted other ref key n] = [m.granted other ref key n] := by
      simp [Machine.granted]
    rw [Function.update_self, Phase.held, Option.toList_some, hlast]
    exact hold.append (List.Sublist.refl _)
  · rw [Function.update_of_ne hother]
    exact hold.trans (List.sublist_append_left _ _)

theorem marks_afterEmit {m : Machine W S K O} {worker : W} {held : Option (Grant W K)}
    {output : O} {next : Prog K O PUnit}
    (hphase : m.phase worker = .running held (.emit output next)) (other : W) :
    (m.afterEmit worker held output next).marks other = m.marks other := by
  rw [Machine.marks, Machine.marks, Machine.afterEmit]
  by_cases hother : other = worker
  · subst hother
    cases held <;> simp [hphase, Phase.held]
  · simp [hother]

theorem ordered_step {m m' : Machine W S K O} (hm : Ordered m)
    (hstep : Step stripe jobs m m') : Ordered m' := by
  cases hstep with
  | start hphase hjob => exact hm.of_sublist rfl (marks_update_sublist rfl rfl rfl)
  | resolve hphase => exact hm.of_sublist rfl (marks_update_sublist rfl rfl rfl)
  | add hphase => exact hm.afterAdd hphase
  | emit hphase =>
      refine hm.of_sublist rfl fun other => ?_
      rw [marks_afterEmit hphase]
  | finish hphase => exact hm.of_sublist rfl (marks_update_sublist rfl rfl rfl)
  | @drain worker =>
      refine hm.of_sublist rfl fun other => ?_
      by_cases hother : other = worker
      · subst hother
        simp [Machine.marks]
      · simp [Machine.marks, hother]

theorem Reachable.ordered {m : Machine W S K O} (hreach : Reachable stripe jobs m) :
    Ordered m :=
  hreach.invariant ordered_initial ordered_step

/-- What a worker is in the middle of is stamped, and so is all it has queued. -/
def StampedWorker (carries : K → UInt64 → O → Prop) (m : Machine W S K O) (worker : W) :
    Prop :=
  (match m.phase worker with
    | .idle => True
    | .running held prog =>
        prog.Stamped carries (held.map fun grant => (grant.key, grant.first))
    | .resolved _ key n next =>
        0 < n ∧ ∀ first, (next first).Stamped carries (some (key, first))) ∧
  ∀ entry ∈ m.outbox worker,
    ∃ grant, entry.1 = some grant ∧ carries grant.key grant.first entry.2

theorem StampedWorker.of_ne {carries : K → UInt64 → O → Prop} {m m' : Machine W S K O}
    {worker : W} (hm : StampedWorker carries m worker)
    (hphase : m'.phase worker = m.phase worker)
    (houtbox : m'.outbox worker = m.outbox worker) : StampedWorker carries m' worker := by
  rw [StampedWorker, hphase, houtbox]
  exact hm

theorem stamped_step {carries : K → UInt64 → O → Prop}
    (hjobs : ∀ prog, jobs prog → prog.Stamped carries none) {m m' : Machine W S K O}
    (hm : ∀ worker, StampedWorker carries m worker) (hstep : Step stripe jobs m m') :
    ∀ worker, StampedWorker carries m' worker := by
  intro other
  cases hstep with
  | @start worker prog hphase hjob =>
      by_cases hother : other = worker
      · subst hother
        refine ⟨?_, (hm other).2⟩
        simpa [Machine.setPhase] using hjobs prog hjob
      · exact (hm other).of_ne (Function.update_of_ne hother _ _) rfl
  | @resolve worker held key n next hphase =>
      by_cases hother : other = worker
      · subst hother
        refine ⟨?_, (hm other).2⟩
        have hprog := (hm other).1
        rw [hphase] at hprog
        simp only [Machine.afterResolve, Function.update_self]
        exact hprog
      · exact (hm other).of_ne (Function.update_of_ne hother _ _) rfl
  | @add worker ref key n next hphase =>
      by_cases hother : other = worker
      · subst hother
        refine ⟨?_, (hm other).2⟩
        have hprog := (hm other).1
        rw [hphase] at hprog
        simp only [Machine.afterAdd, Function.update_self]
        exact hprog.2 _
      · exact (hm other).of_ne (Function.update_of_ne hother _ _) rfl
  | @emit worker held output next hphase =>
      by_cases hother : other = worker
      · subst hother
        have hprog := (hm other).1
        rw [hphase] at hprog
        obtain ⟨⟨key, first, hheld, hcarries⟩, hnext⟩ := hprog
        obtain ⟨grant, rfl, hgrant⟩ := Option.map_eq_some_iff.mp hheld
        obtain ⟨rfl, rfl⟩ := Prod.mk.inj hgrant
        constructor
        · simp only [Machine.afterEmit, Function.update_self]
          exact hnext
        · intro entry hentry
          simp only [Machine.afterEmit, Function.update_self, List.mem_append,
            List.mem_singleton] at hentry
          rcases hentry with hold | rfl
          · exact (hm other).2 entry hold
          · exact ⟨grant, rfl, hcarries⟩
      · exact (hm other).of_ne (Function.update_of_ne hother _ _)
          (Function.update_of_ne hother _ _)
  | @finish worker held hphase =>
      by_cases hother : other = worker
      · subst hother
        refine ⟨?_, (hm other).2⟩
        simp [Machine.setPhase]
      · exact (hm other).of_ne (Function.update_of_ne hother _ _) rfl
  | @drain worker =>
      by_cases hother : other = worker
      · subst hother
        refine ⟨(hm other).1, ?_⟩
        simp
      · exact (hm other).of_ne rfl (Function.update_of_ne hother _ _)

/-- When every job is stamped, each queued output carries the key and the first
number of the grant it is marked with. -/
theorem Reachable.stamped {carries : K → UInt64 → O → Prop}
    (hjobs : ∀ prog, jobs prog → prog.Stamped carries none) {m : Machine W S K O}
    (hreach : Reachable stripe jobs m) : ∀ worker, StampedWorker carries m worker := by
  refine hreach.invariant ?_ (stamped_step hjobs)
  intro worker
  exact ⟨trivial, by simp [Machine.initial]⟩

/-- When every job is stamped, no grant is empty. -/
theorem Reachable.grant_pos {carries : K → UInt64 → O → Prop}
    (hjobs : ∀ prog, jobs prog → prog.Stamped carries none) {m : Machine W S K O}
    (hreach : Reachable stripe jobs m) : ∀ grant ∈ m.log, 0 < grant.count := by
  induction hreach with
  | initial => simp [Machine.initial]
  | @step m m' hreach hstep ih =>
      cases hstep with
      | start hphase hjob => exact ih
      | resolve hphase => exact ih
      | @add worker ref key n next hphase =>
          have hworker := (hreach.stamped hjobs worker).1
          rw [hphase] at hworker
          intro grant hgrant
          rcases List.mem_append.mp hgrant with hold | hnew
          · exact ih grant hold
          · rw [List.mem_singleton.mp hnew]
            exact hworker.1
      | emit hphase => exact ih
      | finish hphase => exact ih
      | drain => exact ih

/-- The outputs of one key that a worker has queued. -/
def Machine.keyOutputs (m : Machine W S K O) (worker : W) (key : K) :
    List (Option (Grant W K) × O) :=
  (m.outbox worker).filter fun entry => entry.1.map Grant.key = some key

/-- The marks of one key's queued outputs, in order. -/
theorem filterMap_keyOutputs (m : Machine W S K O) (worker : W) (key : K) :
    (m.keyOutputs worker key).filterMap Prod.fst =
      ((m.outbox worker).filterMap Prod.fst).filter fun grant => grant.key = key := by
  rw [Machine.keyOutputs]
  induction m.outbox worker with
  | nil => rfl
  | cons entry rest ih =>
      obtain ⟨mark, output⟩ := entry
      cases mark with
      | none => simpa using ih
      | some grant =>
          by_cases hkey : grant.key = key
          · simpa [hkey] using ih
          · simpa [hkey] using ih

/-- Each worker queues one key's outputs in the order of their numbers. -/
theorem Reachable.queued_increasing {carries : K → UInt64 → O → Prop}
    (hjobs : ∀ prog, jobs prog → prog.Stamped carries none) {m : Machine W S K O}
    (hreach : Reachable stripe jobs m) (worker : W) {key : K}
    (hbound : total m.log key < 2 ^ 64) :
    (m.keyOutputs worker key).Pairwise fun earlier later =>
      ∀ first second, earlier.1 = some first → later.1 = some second →
        first.first.toNat < second.first.toNat := by
  have hmarks : (((m.outbox worker).filterMap Prod.fst).filter
      fun grant => grant.key = key).Sublist (m.log.filter fun grant => grant.key = key) := by
    have hsublist := (List.sublist_append_left _ _).trans (hreach.ordered worker)
    exact (hsublist.trans List.filter_sublist).filter _
  have hordered := (hreach.accounted.contiguous.ordered hbound).sublist hmarks
  rw [← filterMap_keyOutputs, List.pairwise_filterMap] at hordered
  refine hordered.imp_of_mem ?_
  intro earlier later hearlier hlater hfirst first second hmark hmark'
  have hmem : ∀ entry ∈ m.keyOutputs worker key, ∀ grant, entry.1 = some grant →
      grant ∈ m.log := by
    intro entry hentry grant hgrant
    have hmark : grant ∈ m.marks worker := List.mem_append_left _
      (List.mem_filterMap.mpr ⟨entry, (List.mem_filter.mp hentry).1, hgrant⟩)
    exact (List.mem_filter.mp ((hreach.ordered worker).mem hmark)).1
  have hpos := hreach.grant_pos hjobs first (hmem earlier hearlier first hmark)
  have hpos' := hreach.grant_pos hjobs second (hmem later hlater second hmark')
  have hgap := hfirst first hmark second hmark' hpos hpos'
  omega

end Dispenser
