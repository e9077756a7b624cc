/-
Programs of atomic operations.  A program asks for an operation and goes on by its
answer.  Lanes run one program after the other; the operations of all lanes and what
the surroundings do change one shared state, in any order.  A monitor follows the
operations of one program, and the history of a world keeps those of all.
-/
import Mathlib.Algebra.Order.BigOperators.Group.List
import Mathlib.Data.List.Perm.Subperm
import Mathlib.Logic.Function.Basic
import Mathlib.Logic.Relation

namespace AtomicOps

universe u v w

/-- A program that asks for operations and goes on by their answers. -/
inductive Script (Op : Type u) (Ans : Op → Type v) (R : Type w) where
  | done (result : R)
  | ask (op : Op) (next : Ans op → Script Op Ans R)

structure Exchange (Op : Type u) (Ans : Op → Type v) where
  op : Op
  answer : Ans op

variable {Op : Type u} {Ans : Op → Type v} {R R' : Type w}

def Script.bind : Script Op Ans R → (R → Script Op Ans R') → Script Op Ans R'
  | .done result, f => f result
  | .ask op next, f => .ask op fun answer => (next answer).bind f

theorem Script.bind_assoc {R'' : Type w} (p : Script Op Ans R) (f : R → Script Op Ans R')
    (g : R' → Script Op Ans R'') : (p.bind f).bind g = p.bind fun result => (f result).bind g := by
  induction p with
  | done result => rfl
  | ask op next ih => exact congrArg (Script.ask op) (funext ih)

section Alone

variable {S : Type} (perform : (op : Op) → S → Ans op × S)

/-- Run a program alone, to its end. -/
def Script.exec : Script Op Ans R → S → R × S
  | .done result, s => (result, s)
  | .ask op next, s => (next (perform op s).1).exec (perform op s).2

/-- The operations of a program that runs alone. -/
def Script.events : Script Op Ans R → S → List (Exchange Op Ans)
  | .done _, _ => []
  | .ask op next, s => ⟨op, (perform op s).1⟩ :: (next (perform op s).1).events (perform op s).2

theorem Script.exec_bind (p : Script Op Ans R) (f : R → Script Op Ans R') (s : S) :
    (p.bind f).exec perform s =
      (f (p.exec perform s).1).exec perform (p.exec perform s).2 := by
  induction p generalizing s with
  | done result => rfl
  | ask op next ih => exact ih _ _

end Alone

/-- What is known of a program by the operations it has done: which operations may
come next, and what is known after each. -/
structure Monitor (Op : Type u) (Ans : Op → Type v) (M : Type) where
  allows : M → Op → Prop
  sees : M → Exchange Op Ans → M

section Monitors

variable {M : Type} {mon : Monitor Op Ans M}

/-- However its operations are answered, the program asks only for what may come next
and ends as it should. -/
def Script.Follows (mon : Monitor Op Ans M) (ends : R → M → Prop) :
    Script Op Ans R → M → Prop
  | .done result, m => ends result m
  | .ask op next, m =>
      mon.allows m op ∧ ∀ answer, (next answer).Follows mon ends (mon.sees m ⟨op, answer⟩)

theorem Script.Follows.mono {ends ends' : R → M → Prop} {p : Script Op Ans R} {m : M}
    (hp : p.Follows mon ends m) (hends : ∀ result m, ends result m → ends' result m) :
    p.Follows mon ends' m := by
  induction p generalizing m with
  | done result => exact hends result m hp
  | ask op next ih => exact ⟨hp.1, fun answer => ih answer (hp.2 answer)⟩

theorem Script.Follows.bind {middle : R → M → Prop} {ends : R' → M → Prop}
    {p : Script Op Ans R} {f : R → Script Op Ans R'} {m : M} (hp : p.Follows mon middle m)
    (hf : ∀ result m, middle result m → (f result).Follows mon ends m) :
    (p.bind f).Follows mon ends m := by
  induction p generalizing m with
  | done result => exact hf result m hp
  | ask op next ih => exact ⟨hp.1, fun answer => ih answer (hp.2 answer)⟩

/-- What is left of a program after some operations. -/
inductive Path (p : Script Op Ans R) : List (Exchange Op Ans) → Script Op Ans R → Prop where
  | start : Path p [] p
  | step {trace : List (Exchange Op Ans)} {op : Op} {next : Ans op → Script Op Ans R}
      (hpath : Path p trace (.ask op next)) (answer : Ans op) :
      Path p (trace ++ [⟨op, answer⟩]) (next answer)

/-- What a monitor knows after some operations. -/
def Monitor.after (mon : Monitor Op Ans M) (m : M) (trace : List (Exchange Op Ans)) : M :=
  trace.foldl mon.sees m

theorem Monitor.after_concat (m : M) (trace : List (Exchange Op Ans)) (event : Exchange Op Ans) :
    mon.after m (trace ++ [event]) = mon.sees (mon.after m trace) event := by
  rw [Monitor.after, List.foldl_append]
  rfl

/-- What is left of a program follows the monitor from where it stands. -/
theorem Script.Follows.path {ends : R → M → Prop} {p q : Script Op Ans R} {m : M}
    (hp : p.Follows mon ends m) {trace : List (Exchange Op Ans)} (hpath : Path p trace q) :
    q.Follows mon ends (mon.after m trace) := by
  induction hpath with
  | start => exact hp
  | step hpath answer ih =>
      rw [Monitor.after_concat]
      exact ih.2 answer

/-- What an allowed operation keeps is known all along. -/
theorem Script.Follows.keeps (Inv : M → Prop) {ends : R → M → Prop} {p q : Script Op Ans R}
    {m : M} (hp : p.Follows mon ends m) (hm : Inv m)
    (hkept : ∀ m event, Inv m → mon.allows m event.op → Inv (mon.sees m event))
    {trace : List (Exchange Op Ans)} (hpath : Path p trace q) : Inv (mon.after m trace) := by
  induction hpath with
  | start => exact hm
  | @step trace op next hpath answer ih =>
      rw [Monitor.after_concat]
      exact hkept _ _ ih (hp.path hpath).1

end Monitors

section Record

variable {Op : Type} {Ans : Op → Type}

/-- The monitor that writes everything down and allows what it may always allow. -/
def Monitor.record (may : Op → Prop) : Monitor Op Ans (List (Exchange Op Ans)) where
  allows _ op := may op
  sees m event := m ++ [event]

theorem Monitor.after_record (may : Op → Prop) (m trace : List (Exchange Op Ans)) :
    (Monitor.record may).after m trace = m ++ trace := by
  induction trace generalizing m with
  | nil => exact (List.append_nil m).symm
  | cons event trace ih =>
      refine (ih (m ++ [event])).trans ?_
      rw [List.append_assoc, List.singleton_append]

theorem Script.Follows.may {R : Type w} {may : Op → Prop} {ends : R → List (Exchange Op Ans) → Prop}
    {p q : Script Op Ans R} (hp : p.Follows (Monitor.record may) ends [])
    {trace : List (Exchange Op Ans)} (hpath : Path p trace q) : ∀ event ∈ trace, may event.op := by
  have hkept := hp.keeps (fun m => ∀ event ∈ m, may event.op) (fun _ hnone => by cases hnone)
    (fun m event hm hmay other hother => by
      rcases List.mem_append.mp hother with hold | hnew
      · exact hm other hold
      · obtain rfl := List.mem_singleton.mp hnew
        exact hmay) hpath
  rwa [Monitor.after_record, List.nil_append] at hkept

end Record

/-- Lanes on a shared state: the program of each job of a lane, what an operation of a
lane may answer and do to the state, and what else may happen to it. -/
structure System (I : Type) (S : Type) (Op : Type u) (Ans : Op → Type v) (R : Type w) where
  job : I → Nat → Option (Script Op Ans R)
  does : I → (op : Op) → S → Ans op → S → Prop
  surrounds : S → S → Prop

/-- The shared state, where every lane stands, what was done so far and by which job,
and what the jobs have ended in. -/
structure World (I : Type) (S : Type) (Op : Type u) (Ans : Op → Type v) (R : Type w) where
  shared : S
  finished : I → Nat
  running : I → Option (Script Op Ans R)
  history : List ((I × Nat) × Exchange Op Ans)
  result : I × Nat → Option R

variable {I S : Type}

def World.initial (s : S) : World I S Op Ans R where
  shared := s
  finished _ := 0
  running _ := none
  history := []
  result _ := none

variable [DecidableEq I]

/-- The operations of one job. -/
def World.trace (w : World I S Op Ans R) (job : I × Nat) : List (Exchange Op Ans) :=
  (w.history.filter fun entry => entry.1 = job).map Prod.snd

def World.begin (w : World I S Op Ans R) (i : I) (p : Script Op Ans R) : World I S Op Ans R :=
  { w with running := Function.update w.running i (some p) }

def World.act (w : World I S Op Ans R) (i : I) (event : Exchange Op Ans) (s : S)
    (q : Script Op Ans R) : World I S Op Ans R :=
  { w with
    shared := s
    running := Function.update w.running i (some q)
    history := w.history ++ [((i, w.finished i), event)] }

def World.finish (w : World I S Op Ans R) (i : I) (result : R) : World I S Op Ans R :=
  { w with
    finished := Function.update w.finished i (w.finished i + 1)
    running := Function.update w.running i none
    result := Function.update w.result (i, w.finished i) (some result) }

variable (sys : System I S Op Ans R)

/-- One step: a lane begins its next job, does an operation or ends its job, or the
state changes by itself. -/
inductive Step : World I S Op Ans R → World I S Op Ans R → Prop where
  | begins {w : World I S Op Ans R} {i : I} {p : Script Op Ans R} (hidle : w.running i = none)
      (hjob : sys.job i (w.finished i) = some p) : Step w (w.begin i p)
  | acts {w : World I S Op Ans R} {i : I} {op : Op} {next : Ans op → Script Op Ans R}
      {answer : Ans op} {s : S} (hrunning : w.running i = some (.ask op next))
      (hdoes : sys.does i op w.shared answer s) :
      Step w (w.act i ⟨op, answer⟩ s (next answer))
  | ends {w : World I S Op Ans R} {i : I} {result : R}
      (hrunning : w.running i = some (.done result)) : Step w (w.finish i result)
  | surrounds {w : World I S Op Ans R} {s : S} (hsurrounds : sys.surrounds w.shared s) :
      Step w { w with shared := s }

/-- The worlds some order of steps leads to. -/
inductive Reachable (s : S) : World I S Op Ans R → Prop where
  | initial : Reachable s (World.initial s)
  | step {w w' : World I S Op Ans R} (hreach : Reachable s w) (hstep : Step sys w w') :
      Reachable s w'

variable {sys} {s : S} {w w' : World I S Op Ans R}

theorem Reachable.steps (hreach : Reachable sys s w)
    (hsteps : Relation.ReflTransGen (Step sys) w w') : Reachable sys s w' := by
  induction hsteps with
  | refl => exact hreach
  | tail _ hstep ih => exact ih.step hstep

/-- What holds of the state and the history at the start, and is kept by every operation
and by the surroundings, holds in every reachable world. -/
theorem Reachable.invariant (Inv : S → List ((I × Nat) × Exchange Op Ans) → Prop)
    (hinitial : Inv s [])
    (hdoes : ∀ i n op s answer s' history, Inv s history → sys.does i op s answer s' →
      Inv s' (history ++ [((i, n), ⟨op, answer⟩)]))
    (hsurrounds : ∀ s s' history, Inv s history → sys.surrounds s s' → Inv s' history)
    (hreach : Reachable sys s w) : Inv w.shared w.history := by
  induction hreach with
  | initial => exact hinitial
  | step _ hstep ih =>
      cases hstep with
      | begins hidle hjob => exact ih
      | acts hrunning hstep => exact hdoes _ _ _ _ _ _ _ ih hstep
      | ends hrunning => exact ih
      | surrounds hstep => exact hsurrounds _ _ _ ih hstep

/-- What holds of the state at some point and is kept by every operation and by the
surroundings holds after a stretch of steps from there, with the operations of the
stretch. -/
theorem steps_invariant (Inv : S → List ((I × Nat) × Exchange Op Ans) → Prop)
    (hstart : Inv w.shared [])
    (hdoes : ∀ i n op s answer s' stretch, Inv s stretch → sys.does i op s answer s' →
      Inv s' (stretch ++ [((i, n), ⟨op, answer⟩)]))
    (hsurrounds : ∀ s s' stretch, Inv s stretch → sys.surrounds s s' → Inv s' stretch)
    (hsteps : Relation.ReflTransGen (Step sys) w w') :
    ∃ stretch, w'.history = w.history ++ stretch ∧ Inv w'.shared stretch := by
  induction hsteps with
  | refl => exact ⟨[], (List.append_nil _).symm, hstart⟩
  | @tail middle _ _ hstep ih =>
      obtain ⟨stretch, hhistory, hinv⟩ := ih
      cases hstep with
      | begins hidle hjob => exact ⟨stretch, hhistory, hinv⟩
      | @acts i op next answer s hrunning hstep =>
          refine ⟨_, ?_, hdoes i (middle.finished i) op _ answer s _ hinv hstep⟩
          rw [World.act, hhistory, List.append_assoc]
      | ends hrunning => exact ⟨stretch, hhistory, hinv⟩
      | surrounds hstep => exact ⟨stretch, hhistory, hsurrounds _ _ _ hinv hstep⟩

theorem trace_append_self (w : World I S Op Ans R) (job : I × Nat) (event : Exchange Op Ans) :
    World.trace { w with history := w.history ++ [(job, event)] } job =
      w.trace job ++ [event] := by
  simp [World.trace]

theorem trace_append_of_ne (w : World I S Op Ans R) {job other : I × Nat} (hne : other ≠ job)
    (event : Exchange Op Ans) :
    World.trace { w with history := w.history ++ [(other, event)] } job = w.trace job := by
  simp [World.trace, hne]

/-- Where a job stands: its lane has not come to it, or is in it, or is past it. -/
inductive Standing (sys : System I S Op Ans R) (w : World I S Op Ans R) (i : I) (n : Nat) :
    Prop where
  | ahead (hahead : w.finished i < n ∨ w.finished i = n ∧ w.running i = none)
      (htrace : w.trace (i, n) = []) (hresult : w.result (i, n) = none)
  | running {p q : Script Op Ans R} (hnow : w.finished i = n) (hjob : sys.job i n = some p)
      (hrunning : w.running i = some q) (hpath : Path p (w.trace (i, n)) q)
      (hresult : w.result (i, n) = none)
  | past {p : Script Op Ans R} {result : R} (hpast : n < w.finished i)
      (hjob : sys.job i n = some p) (hpath : Path p (w.trace (i, n)) (.done result))
      (hresult : w.result (i, n) = some result)

/-- A job stands as it did if its lane, its operations and its result are as they were. -/
theorem Standing.congr {i : I} {n : Nat} (hjob : Standing sys w i n)
    (hfinished : w'.finished i = w.finished i) (hrunning : w'.running i = w.running i)
    (htrace : w'.trace (i, n) = w.trace (i, n)) (hresult : w'.result (i, n) = w.result (i, n)) :
    Standing sys w' i n := by
  cases hjob with
  | ahead hahead hnone hres =>
      exact .ahead (by rwa [hfinished, hrunning]) (htrace.trans hnone) (hresult.trans hres)
  | running hnow hjob hrun hpath hres =>
      exact .running (hfinished.trans hnow) hjob (hrunning.trans hrun) (htrace ▸ hpath)
        (hresult.trans hres)
  | past hpast hjob hpath hres =>
      exact .past (hfinished ▸ hpast) hjob (htrace ▸ hpath) (hresult.trans hres)

theorem Standing.of_running {i : I} {q : Script Op Ans R}
    (hjob : Standing sys w i (w.finished i)) (hrunning : w.running i = some q) :
    ∃ p, sys.job i (w.finished i) = some p ∧ Path p (w.trace (i, w.finished i)) q ∧
      w.result (i, w.finished i) = none := by
  cases hjob with
  | ahead hahead htrace hresult =>
      rcases hahead with hlt | ⟨_, hnone⟩
      · exact absurd hlt (Nat.lt_irrefl _)
      · rw [hrunning] at hnone
        cases hnone
  | running hnow hjob hrun hpath hresult =>
      rw [hrunning] at hrun
      exact ⟨_, hjob, Option.some.inj hrun ▸ hpath, hresult⟩
  | past hpast hjob hpath hresult => exact absurd hpast (Nat.lt_irrefl _)

theorem Standing.begin {i j : I} {n : Nat} {p : Script Op Ans R} (hjob : Standing sys w j n)
    (hidle : w.running i = none) (hnext : sys.job i (w.finished i) = some p) :
    Standing sys (w.begin i p) j n := by
  by_cases hlane : j = i
  · subst hlane
    have hrunning : (w.begin j p).running j = some p := Function.update_self _ _ _
    cases hjob with
    | ahead hahead htrace hresult =>
        rcases hahead with hlt | ⟨hnow, _⟩
        · exact .ahead (Or.inl hlt) htrace hresult
        · refine .running hnow (hnow ▸ hnext) hrunning ?_ hresult
          rw [show (w.begin j p).trace (j, n) = [] from htrace]
          exact .start
    | running hnow hjob hrun hpath hresult =>
        rw [hidle] at hrun
        cases hrun
    | past hpast hjob hpath hresult => exact .past hpast hjob hpath hresult
  · exact hjob.congr rfl (Function.update_of_ne hlane _ _) rfl rfl

theorem Standing.act {i j : I} {n : Nat} {op : Op} {next : Ans op → Script Op Ans R}
    (hjob : Standing sys w j n) (hrunning : w.running i = some (.ask op next))
    (answer : Ans op) (s : S) : Standing sys (w.act i ⟨op, answer⟩ s (next answer)) j n := by
  by_cases hsame : (j, n) = (i, w.finished i)
  · obtain ⟨rfl, rfl⟩ := Prod.mk.inj hsame
    obtain ⟨p, hp, hpath, hresult⟩ := hjob.of_running hrunning
    refine .running rfl hp (Function.update_self _ _ _) ?_ hresult
    have htrace := trace_append_self w (j, w.finished j) ⟨op, answer⟩
    exact htrace ▸ hpath.step answer
  · have htrace : (w.act i ⟨op, answer⟩ s (next answer)).trace (j, n) = w.trace (j, n) :=
      trace_append_of_ne w (Ne.symm hsame) _
    by_cases hlane : j = i
    · subst hlane
      have hother : w.finished j ≠ n := fun hnow => hsame (by rw [hnow])
      cases hjob with
      | ahead hahead hnone hresult =>
          rcases hahead with hlt | ⟨hnow, _⟩
          · exact .ahead (Or.inl hlt) (htrace.trans hnone) hresult
          · exact absurd hnow hother
      | running hnow hjob hrun hpath hresult => exact absurd hnow hother
      | past hpast hjob hpath hresult => exact .past hpast hjob (htrace ▸ hpath) hresult
    · exact hjob.congr rfl (Function.update_of_ne hlane _ _) htrace rfl

theorem Standing.finish {i j : I} {n : Nat} {result : R} (hjob : Standing sys w j n)
    (hrunning : w.running i = some (.done result)) : Standing sys (w.finish i result) j n := by
  by_cases hlane : j = i
  · subst hlane
    have hfinished : (w.finish j result).finished j = w.finished j + 1 :=
      Function.update_self _ _ _
    have hidle : (w.finish j result).running j = none := Function.update_self _ _ _
    have hkept : n ≠ w.finished j → (w.finish j result).result (j, n) = w.result (j, n) :=
      fun hne => Function.update_of_ne (fun hsame => hne (Prod.mk.inj hsame).2) _ _
    by_cases hnow : n = w.finished j
    · subst hnow
      obtain ⟨p, hp, hpath, _⟩ := hjob.of_running hrunning
      exact .past (by omega) hp hpath (Function.update_self _ _ _)
    · cases hjob with
      | ahead hahead htrace hres =>
          refine .ahead ?_ htrace ((hkept hnow).trans hres)
          rcases hahead with hlt | ⟨hnow', _⟩
          · rcases Nat.lt_or_eq_of_le (Nat.succ_le_of_lt hlt) with hlater | hnext
            · exact Or.inl (hfinished ▸ hlater)
            · exact Or.inr ⟨hfinished.trans hnext, hidle⟩
          · exact absurd hnow'.symm hnow
      | running hnow' hjob hrun hpath hres => exact absurd hnow'.symm hnow
      | past hpast hjob hpath hres =>
          exact .past (by omega) hjob hpath ((hkept hnow).trans hres)
  · refine hjob.congr (Function.update_of_ne hlane _ _) (Function.update_of_ne hlane _ _) rfl ?_
    exact Function.update_of_ne (fun hsame => hlane (Prod.mk.inj hsame).1) _ _

/-- In every reachable world every job stands somewhere in its own program, and what it
has done is a path there. -/
theorem Reachable.standing (hreach : Reachable sys s w) (i : I) (n : Nat) :
    Standing sys w i n := by
  induction hreach with
  | initial =>
      refine .ahead ?_ rfl rfl
      rcases Nat.eq_zero_or_pos n with hzero | hpos
      · exact Or.inr ⟨hzero.symm, rfl⟩
      · exact Or.inl hpos
  | step _ hstep ih =>
      cases hstep with
      | begins hidle hjob => exact ih.begin hidle hjob
      | acts hrunning hdoes => exact ih.act hrunning _ _
      | ends hrunning => exact ih.finish hrunning
      | surrounds hsurrounds => exact ih.congr rfl rfl rfl rfl

/-- A job that has done something has a program, and has done a path of it. -/
theorem Standing.path {i : I} {n : Nat} (hjob : Standing sys w i n)
    (hacted : w.trace (i, n) ≠ []) :
    ∃ p q, sys.job i n = some p ∧ Path p (w.trace (i, n)) q := by
  cases hjob with
  | ahead hahead htrace hresult => exact absurd htrace hacted
  | running hnow hjob hrunning hpath hresult => exact ⟨_, _, hjob, hpath⟩
  | past hpast hjob hpath hresult => exact ⟨_, _, hjob, hpath⟩

theorem Standing.of_result {i : I} {n : Nat} {result : R} (hjob : Standing sys w i n)
    (hresult : w.result (i, n) = some result) :
    ∃ p, sys.job i n = some p ∧ Path p (w.trace (i, n)) (.done result) := by
  cases hjob with
  | ahead hahead htrace hnone =>
      rw [hresult] at hnone
      cases hnone
  | running hnow hjob hrunning hpath hnone =>
      rw [hresult] at hnone
      cases hnone
  | past hpast hjob hpath hres =>
      rw [hresult] at hres
      exact ⟨_, hjob, Option.some.inj hres ▸ hpath⟩

theorem mem_trace {w : World I S Op Ans R} {job : I × Nat} {event : Exchange Op Ans} :
    event ∈ w.trace job ↔ (job, event) ∈ w.history := by
  simp only [World.trace, List.mem_map, List.mem_filter, decide_eq_true_eq]
  constructor
  · rintro ⟨⟨other, found⟩, ⟨hmem, hjob⟩, hevent⟩
    dsimp only at hjob hevent
    subst hjob
    subst hevent
    exact hmem
  · intro hmem
    exact ⟨(job, event), ⟨hmem, rfl⟩, rfl⟩

/-- Different jobs that have each done an operation of some kind are no more than such
operations were done. -/
theorem length_le_of_traces (w : World I S Op Ans R) (kind : Exchange Op Ans → Bool)
    {jobs : List (I × Nat)} (hnodup : jobs.Nodup)
    (hdone : ∀ job ∈ jobs, ∃ event ∈ w.trace job, kind event = true) :
    jobs.length ≤ (w.history.filter fun entry => kind entry.2).length := by
  have hsubset : jobs ⊆ (w.history.filter fun entry => kind entry.2).map Prod.fst := by
    intro job hjob
    obtain ⟨event, hmem, hkind⟩ := hdone job hjob
    exact List.mem_map.mpr ⟨(job, event), List.mem_filter.mpr ⟨mem_trace.mp hmem, hkind⟩, rfl⟩
  have hlength := (List.subperm_of_subset hnodup hsubset).length_le
  rwa [List.length_map] at hlength

/-- Different jobs that each weigh no more than some operation of theirs weigh together no
more than all operations. -/
theorem sum_le_of_entries {J E K : Type} [AddCommMonoid K] [PartialOrder K]
    [IsOrderedAddMonoid K] {entries : List (J × E)} (value : E → K)
    (hvalue : ∀ entry ∈ entries, 0 ≤ value entry.2) {jobs : List J} (hnodup : jobs.Nodup)
    (weight : J → K)
    (hdone : ∀ job ∈ jobs, ∃ event, (job, event) ∈ entries ∧ weight job ≤ value event) :
    (jobs.map weight).sum ≤ (entries.map fun entry => value entry.2).sum := by
  induction jobs generalizing entries with
  | nil =>
      refine List.sum_nonneg ?_
      intro total htotal
      obtain ⟨entry, hentry, rfl⟩ := List.mem_map.mp htotal
      exact hvalue entry hentry
  | cons job jobs ih =>
      obtain ⟨hnew, hrest⟩ := List.nodup_cons.mp hnodup
      obtain ⟨event, hmem, hweight⟩ := hdone job (List.mem_cons_self ..)
      -- the entry of the first job is taken out; the others find theirs in the rest
      obtain ⟨before, after, rfl⟩ := List.append_of_mem hmem
      have hkept : ∀ entry ∈ before ++ after, 0 ≤ value entry.2 := by
        intro entry hentry
        apply hvalue entry
        rcases List.mem_append.mp hentry with h | h <;> simp [h]
      have hfind : ∀ other ∈ jobs,
          ∃ found, (other, found) ∈ before ++ after ∧ weight other ≤ value found := by
        intro other hother
        obtain ⟨found, hfound, hle⟩ := hdone other (List.mem_cons_of_mem _ hother)
        refine ⟨found, ?_, hle⟩
        rcases List.mem_append.mp hfound with h | h
        · exact List.mem_append_left _ h
        · rcases List.mem_cons.mp h with hsame | h
          · exact absurd ((Prod.mk.inj hsame).1 ▸ hother) hnew
          · exact List.mem_append_right _ h
      have hothers := ih hkept hrest hfind
      simp only [List.map_append, List.map_cons, List.sum_append, List.sum_cons] at hothers ⊢
      calc weight job + (jobs.map weight).sum
          ≤ value event + ((before.map fun entry => value entry.2).sum +
              (after.map fun entry => value entry.2).sum) := add_le_add hweight hothers
        _ = _ := by rw [add_left_comm]

section RunsAlone

variable (perform : (op : Op) → S → Ans op × S)

/-- A lane does the rest of its program while nobody else moves. -/
theorem steps_alone {i : I} (hdoes : ∀ op s, sys.does i op s (perform op s).1 (perform op s).2)
    (q : Script Op Ans R) {w : World I S Op Ans R} (hrunning : w.running i = some q) :
    Relation.ReflTransGen (Step sys) w
      { shared := (q.exec perform w.shared).2
        finished := Function.update w.finished i (w.finished i + 1)
        running := Function.update w.running i none
        history := w.history ++
          (q.events perform w.shared).map fun event => ((i, w.finished i), event)
        result := Function.update w.result (i, w.finished i)
          (some (q.exec perform w.shared).1) } := by
  induction q generalizing w with
  | done result =>
      have hends : Relation.ReflTransGen (Step sys) w (w.finish i result) :=
        .single (.ends hrunning)
      simpa only [Script.exec, Script.events, List.map_nil, List.append_nil, World.finish]
        using hends
  | ask op next ih =>
      have hacts : Step sys w _ := .acts hrunning (hdoes op w.shared)
      have hrest := ih (perform op w.shared).1
        (w := w.act i ⟨op, (perform op w.shared).1⟩ (perform op w.shared).2
          (next (perform op w.shared).1)) (Function.update_self _ _ _)
      refine Relation.ReflTransGen.head hacts ?_
      simpa only [Script.exec, Script.events, World.act, Function.update_idem, List.map_cons,
        List.append_assoc, List.singleton_append] using hrest

/-- A lane begins its next job and does all of it while nobody else moves. -/
theorem job_alone {i : I} (hdoes : ∀ op s, sys.does i op s (perform op s).1 (perform op s).2)
    {w : World I S Op Ans R} (hidle : w.running i = none) {p : Script Op Ans R}
    (hjob : sys.job i (w.finished i) = some p) :
    Relation.ReflTransGen (Step sys) w
      { shared := (p.exec perform w.shared).2
        finished := Function.update w.finished i (w.finished i + 1)
        running := w.running
        history := w.history ++
          (p.events perform w.shared).map fun event => ((i, w.finished i), event)
        result := Function.update w.result (i, w.finished i)
          (some (p.exec perform w.shared).1) } := by
  have hrest := steps_alone perform hdoes p (w := w.begin i p) (Function.update_self _ _ _)
  refine Relation.ReflTransGen.head (.begins hidle hjob) ?_
  have hrunning : Function.update (Function.update w.running i (some p)) i none = w.running := by
    rw [Function.update_idem, ← hidle, Function.update_eq_self]
  simpa only [World.begin, hrunning] using hrest

end RunsAlone

end AtomicOps
