/-
Two processes that swap buffers.  A producer loads a buffer and, on a flush,
trades it for an empty one from a free list and sends it down a bounded queue; a
consumer takes buffers off the queue, works each off step by step, and puts it
back.  With one buffer more than the queue holds neither side is ever stuck, a
buffer is in one place at a time, and the outputs are those of a single process
that works every flush off on the spot, whatever the interleaving.
-/
import Mathlib.Data.List.Perm.Basic
import Mathlib.Data.List.Nodup
import Mathlib.Logic.Function.Basic

namespace Handoff

/-- What the two sides do with a buffer.  Loading an item may read and change
notes of the producer's own; `work` is one step of the consumer, which moves its
counter, changes the buffer and adds outputs, or finds nothing left to do. -/
structure Ring (A X C P E : Type) where
  load : A → X → C → X × C
  ready : C → Bool
  blank : C
  start : P
  work : P → C → List E → Option (P × C × List E)

/-- What the producer is told to do. -/
inductive Op (A : Type) where
  | load (item : A)
  | flush

/-- Where the producer is: between operations, with a buffer it has just taken,
with one it has filled, waiting for the consumer to leave, or gone. -/
inductive Hand where
  | idle
  | taken (b : Nat)
  | filled (b : Nat)
  | closing
  | stopped
deriving DecidableEq

def Hand.closed : Hand → Bool
  | .closing => true
  | .stopped => true
  | _ => false

def Hand.held : Hand → List Nat
  | .taken b => [b]
  | .filled b => [b]
  | _ => []

/-- Where the consumer is. -/
inductive Worker (P : Type) where
  | waiting
  | working (b : Nat) (p : P)
  | returning (b : Nat)
  | ended

def Worker.held {P : Type} : Worker P → List Nat
  | .working b _ => [b]
  | .returning b => [b]
  | _ => []

/-- The state of both, and of the buffers and channels between them. -/
structure Sys (A X C P E : Type) where
  script : List (Op A)
  hand : Hand
  notes : X
  current : C
  cells : Nat → C
  free : List Nat
  full : List Nat
  worker : Worker P
  out : List E

section System

variable {A X C P E : Type} (R : Ring A X C P E) (depth : Nat)

/-- All buffers free, and the whole script to do. -/
def Sys.initial (notes : X) (script : List (Op A)) : Sys A X C P E where
  script := script
  hand := .idle
  notes := notes
  current := R.blank
  cells := fun _ => R.blank
  free := List.range (depth + 1)
  full := []
  worker := .waiting
  out := []

/-- A step of the producer.  Taking waits for a free buffer, sending for room. -/
inductive Produce : Sys A X C P E → Sys A X C P E → Prop where
  | load {s : Sys A X C P E} {item : A} {rest : List (Op A)}
      (hscript : s.script = .load item :: rest) (hhand : s.hand = .idle) :
      Produce s { s with
        script := rest
        notes := (R.load item s.notes s.current).1
        current := (R.load item s.notes s.current).2 }
  | skip {s : Sys A X C P E} {rest : List (Op A)} (hscript : s.script = .flush :: rest)
      (hhand : s.hand = .idle) (hready : R.ready s.current = false) :
      Produce s { s with script := rest }
  | take {s : Sys A X C P E} {rest : List (Op A)} {b : Nat} {free : List Nat}
      (hscript : s.script = .flush :: rest) (hhand : s.hand = .idle)
      (hready : R.ready s.current = true) (hfree : s.free = b :: free) :
      Produce s { s with script := rest, hand := .taken b, free := free }
  | swap {s : Sys A X C P E} {b : Nat} (hhand : s.hand = .taken b) :
      Produce s { s with
        hand := .filled b
        current := s.cells b
        cells := Function.update s.cells b s.current }
  | send {s : Sys A X C P E} {b : Nat} (hhand : s.hand = .filled b)
      (hroom : s.full.length < depth) :
      Produce s { s with hand := .idle, full := s.full ++ [b] }
  | close {s : Sys A X C P E} (hscript : s.script = []) (hhand : s.hand = .idle) :
      Produce s { s with hand := .closing }
  | stop {s : Sys A X C P E} (hhand : s.hand = .closing) (hworker : s.worker = .ended) :
      Produce s { s with hand := .stopped }

/-- A step of the consumer.  It leaves once the queue is closed and empty. -/
inductive Consume : Sys A X C P E → Sys A X C P E → Prop where
  | receive {s : Sys A X C P E} {b : Nat} {full : List Nat} (hworker : s.worker = .waiting)
      (hfull : s.full = b :: full) :
      Consume s { s with full := full, worker := .working b R.start }
  | work {s : Sys A X C P E} {b : Nat} {p next : P} {c : C} {events : List E}
      (hworker : s.worker = .working b p)
      (hwork : R.work p (s.cells b) s.out = some (next, c, events)) :
      Consume s { s with
        worker := .working b next
        cells := Function.update s.cells b c
        out := s.out ++ events }
  | finish {s : Sys A X C P E} {b : Nat} {p : P} (hworker : s.worker = .working b p)
      (hwork : R.work p (s.cells b) s.out = none) :
      Consume s { s with worker := .returning b }
  | giveBack {s : Sys A X C P E} {b : Nat} (hworker : s.worker = .returning b)
      (hroom : s.free.length < depth + 1) :
      Consume s { s with worker := .waiting, free := s.free ++ [b] }
  | leave {s : Sys A X C P E} (hworker : s.worker = .waiting) (hfull : s.full = [])
      (hclosed : s.hand.closed = true) :
      Consume s { s with worker := .ended }

def Step (s s' : Sys A X C P E) : Prop :=
  Produce R depth s s' ∨ Consume R depth s s'

/-- The states of every interleaving, by the number of steps. -/
inductive Reach (start : Sys A X C P E) : Nat → Sys A X C P E → Prop where
  | start : Reach start 0 start
  | step {m : Nat} {s s' : Sys A X C P E} (hreach : Reach start m s) (hstep : Step R depth s s') :
      Reach start (m + 1) s'

/-- Working a buffer off: from a counter, a content and the outputs so far to the
outputs at the end and an empty buffer, in a number of steps. -/
inductive Works : P → C → List E → List E → Nat → Prop where
  | done {p : P} {out : List E} (hwork : R.work p R.blank out = none) :
      Works p R.blank out out 1
  | step {p next : P} {c left : C} {out events final : List E} {k : Nat}
      (hwork : R.work p c out = some (next, left, events))
      (hrest : Works next left (out ++ events) final k) : Works p c out final (k + 1)

/-- A single process on the same script: each flush is worked off on the spot. -/
def serve (finish : C → List E → List E) : List (Op A) → X → C → List E → List E
  | [], _, _, out => out
  | .load item :: rest, notes, c, out =>
      serve finish rest (R.load item notes c).1 (R.load item notes c).2 out
  | .flush :: rest, notes, c, out =>
      if R.ready c then serve finish rest notes R.blank (finish c out)
      else serve finish rest notes c out

/-- The steps a script takes, of both sides together: taking, swapping, sending,
receiving and giving back each cost one beside the work. -/
def scriptCost (span : C → Nat) : List (Op A) → X → C → Nat
  | [], _, _ => 0
  | .load item :: rest, notes, c =>
      scriptCost span rest (R.load item notes c).1 (R.load item notes c).2 + 1
  | .flush :: rest, notes, c =>
      if R.ready c then scriptCost span rest notes R.blank + (span c + 5)
      else scriptCost span rest notes c + 1

/-- What the consumer still makes of the buffer it has. -/
inductive Finishes (cells : Nat → C) (out : List E) : Worker P → List E → Nat → Prop where
  | waiting : Finishes cells out .waiting out 1
  | working {b : Nat} {p : P} {final : List E} {k : Nat}
      (hworks : Works R p (cells b) out final k) : Finishes cells out (.working b p) final (k + 2)
  | returning {b : Nat} : Finishes cells out (.returning b) out 2
  | ended : Finishes cells out .ended out 0

/-- What becomes of the outputs once the queued buffers are worked off. -/
def drain (finish : C → List E → List E) (cells : Nat → C) (full : List Nat) (out : List E) :
    List E :=
  full.foldl (fun out b => finish (cells b) out) out

def drainCost (span : C → Nat) (cells : Nat → C) : List Nat → Nat
  | [] => 0
  | b :: full => span (cells b) + 2 + drainCost span cells full

/-- The buffer the producer is about to send, worked off too. -/
def Sys.settle (finish : C → List E → List E) (s : Sys A X C P E) (out : List E) : List E :=
  match s.hand with
  | .taken _ => finish s.current out
  | .filled b => finish (s.cells b) out
  | _ => out

/-- What the producer goes on with. -/
def Sys.ahead (s : Sys A X C P E) : C :=
  match s.hand with
  | .taken _ => R.blank
  | _ => s.current

def Sys.handCost (span : C → Nat) (s : Sys A X C P E) : Nat :=
  match s.hand with
  | .idle => 2
  | .taken _ => span s.current + 6
  | .filled b => span (s.cells b) + 5
  | .closing => 1
  | .stopped => 0

/-- The outputs the system ends with, and the steps it still takes, whichever way
it goes on. -/
def Predicts (finish : C → List E → List E) (span : C → Nat) (s : Sys A X C P E)
    (final : List E) (n : Nat) : Prop :=
  ∃ out k, Finishes R s.cells s.out s.worker out k ∧
    final = serve R finish s.script s.notes (s.ahead R)
      (s.settle finish (drain finish s.cells s.full out)) ∧
    n = scriptCost R span s.script s.notes (s.ahead R) + s.handCost span +
      drainCost span s.cells s.full + k

/-- Where the buffers are. -/
def Sys.places (s : Sys A X C P E) : List Nat :=
  s.free ++ s.full ++ s.hand.held ++ s.worker.held

/-- What holds between steps: every buffer is in one place, those that are free or
on their way to or from the free list are empty, and the queue is closed only
once the script is done. -/
structure Inv (s : Sys A X C P E) : Prop where
  places : s.places.Perm (List.range (depth + 1))
  free : ∀ b ∈ s.free, s.cells b = R.blank
  taken : ∀ b, s.hand = .taken b → s.cells b = R.blank
  returning : ∀ b, s.worker = .returning b → s.cells b = R.blank
  closed : s.hand.closed = true → s.script = []
  ended : s.worker = .ended → s.hand.closed = true ∧ s.full = []
  stopped : s.hand = .stopped → s.worker = .ended

end System

section Invariant

variable {A X C P E : Type} {R : Ring A X C P E} {depth : Nat} {s s' : Sys A X C P E}

theorem Works.of_none {p : P} {c : C} {out final : List E} {k : Nat}
    (hworks : Works R p c out final k) (hnone : R.work p c out = none) :
    c = R.blank ∧ final = out ∧ k = 1 := by
  cases hworks with
  | done hwork => exact ⟨rfl, rfl, rfl⟩
  | step hwork hrest => cases hwork.symm.trans hnone

theorem Works.of_some {p next : P} {c left : C} {out events final : List E} {k : Nat}
    (hworks : Works R p c out final k) (hsome : R.work p c out = some (next, left, events)) :
    ∃ rest, k = rest + 1 ∧ Works R next left (out ++ events) final rest := by
  cases hworks with
  | done hwork => cases hwork.symm.trans hsome
  | step hwork hrest =>
      cases hwork.symm.trans hsome
      exact ⟨_, rfl, hrest⟩

/-- A step moves buffers about; it makes none and loses none. -/
theorem Step.places_perm (hstep : Step R depth s s') : s'.places.Perm s.places := by
  rw [List.perm_iff_count]
  intro b
  rcases hstep with hproduce | hconsume
  · cases hproduce with
    | load hscript hhand => rfl
    | skip hscript hhand hready => rfl
    | take hscript hhand hready hfree =>
        simp only [Sys.places, hhand, hfree, Hand.held, List.count_append, List.count_cons,
          List.count_nil]
        omega
    | swap hhand => simp only [Sys.places, hhand, Hand.held]
    | send hhand hroom =>
        simp only [Sys.places, hhand, Hand.held, List.count_append, List.count_nil]
        omega
    | close hscript hhand => simp only [Sys.places, hhand, Hand.held]
    | stop hhand hworker => simp only [Sys.places, hhand, Hand.held]
  · cases hconsume with
    | receive hworker hfull =>
        simp only [Sys.places, hworker, hfull, Worker.held, List.count_append, List.count_cons,
          List.count_nil]
        omega
    | work hworker hwork => simp only [Sys.places, hworker, Worker.held]
    | finish hworker hwork => simp only [Sys.places, hworker, Worker.held]
    | giveBack hworker hroom =>
        simp only [Sys.places, hworker, Worker.held, List.count_append, List.count_nil]
        omega
    | leave hworker hfull hclosed => simp only [Sys.places, hworker, Worker.held]

theorem Inv.nodup (hinv : Inv R depth s) : s.places.Nodup :=
  hinv.places.nodup_iff.mpr List.nodup_range

theorem Inv.of_mem_hand (hinv : Inv R depth s) {b : Nat} (hb : b ∈ s.hand.held) :
    b ∉ s.free ∧ b ∉ s.full ∧ b ∉ s.worker.held := by
  have hnodup := hinv.nodup
  simp only [Sys.places, List.nodup_append', List.disjoint_append_left] at hnodup
  obtain ⟨⟨_, _, hfree, hfull⟩, _, _, hworker⟩ := hnodup
  exact ⟨fun hmem => hfree hmem hb, fun hmem => hfull hmem hb, hworker hb⟩

theorem Inv.of_mem_worker (hinv : Inv R depth s) {b : Nat} (hb : b ∈ s.worker.held) :
    b ∉ s.free ∧ b ∉ s.full ∧ b ∉ s.hand.held := by
  have hnodup := hinv.nodup
  simp only [Sys.places, List.nodup_append', List.disjoint_append_left] at hnodup
  obtain ⟨_, _, ⟨hfree, hfull⟩, hhand⟩ := hnodup
  exact ⟨fun hmem => hfree hmem hb, fun hmem => hfull hmem hb, fun hmem => hhand hmem hb⟩

theorem Inv.length (hinv : Inv R depth s) :
    s.free.length + s.full.length + s.hand.held.length + s.worker.held.length = depth + 1 := by
  have hlength := hinv.places.length_eq
  simpa only [Sys.places, List.length_append, List.length_range] using hlength

theorem inv_initial (notes : X) (script : List (Op A)) :
    Inv R depth (Sys.initial R depth notes script) where
  places := by simp [Sys.places, Sys.initial, Hand.held, Worker.held]
  free := fun _ _ => rfl
  taken := nofun
  returning := nofun
  closed := nofun
  ended := nofun
  stopped := nofun

theorem Inv.produce (hinv : Inv R depth s) (hstep : Produce R depth s s') : Inv R depth s' := by
  have hplaces := (Step.places_perm (Or.inl hstep)).trans hinv.places
  cases hstep with
  | load hscript hhand =>
      have hopen : s.hand.closed = false := hhand ▸ rfl
      exact ⟨hplaces, hinv.free, hinv.taken, hinv.returning,
        fun hclosed => absurd (hopen.symm.trans hclosed) (by decide), hinv.ended, hinv.stopped⟩
  | skip hscript hhand hready =>
      have hopen : s.hand.closed = false := hhand ▸ rfl
      exact ⟨hplaces, hinv.free, hinv.taken, hinv.returning,
        fun hclosed => absurd (hopen.symm.trans hclosed) (by decide), hinv.ended, hinv.stopped⟩
  | @take rest b free hscript hhand hready hfree =>
      have hopen : s.hand.closed = false := hhand ▸ rfl
      refine ⟨hplaces, ?_, ?_, hinv.returning, nofun, ?_, nofun⟩
      · intro other hother
        exact hinv.free other (hfree ▸ List.mem_cons_of_mem b hother)
      · rintro other ⟨⟩
        exact hinv.free b (hfree ▸ List.mem_cons_self)
      · intro hended
        exact absurd (hopen.symm.trans (hinv.ended hended).1) (by decide)
  | @swap b hhand =>
      have hopen : s.hand.closed = false := hhand ▸ rfl
      have hheld : b ∈ s.hand.held := hhand ▸ List.mem_cons_self
      obtain ⟨hfree, _, hworker⟩ := hinv.of_mem_hand hheld
      refine ⟨hplaces, ?_, nofun, ?_, nofun, ?_, nofun⟩
      · intro other hother
        refine (Function.update_of_ne ?_ _ _).trans (hinv.free other hother)
        rintro rfl
        exact hfree hother
      · intro other hother
        refine (Function.update_of_ne ?_ _ _).trans (hinv.returning other hother)
        rintro rfl
        exact hworker ((congrArg Worker.held hother) ▸ List.mem_cons_self)
      · intro hended
        exact absurd (hopen.symm.trans (hinv.ended hended).1) (by decide)
  | @send b hhand hroom =>
      have hopen : s.hand.closed = false := hhand ▸ rfl
      refine ⟨hplaces, hinv.free, nofun, hinv.returning, nofun, ?_, nofun⟩
      intro hended
      exact absurd (hopen.symm.trans (hinv.ended hended).1) (by decide)
  | close hscript hhand =>
      exact ⟨hplaces, hinv.free, nofun, hinv.returning, fun _ => hscript,
        fun hended => ⟨rfl, (hinv.ended hended).2⟩, nofun⟩
  | stop hhand hworker =>
      have hclosed : s.hand.closed = true := hhand ▸ rfl
      exact ⟨hplaces, hinv.free, nofun, hinv.returning, fun _ => hinv.closed hclosed,
        fun hended => ⟨rfl, (hinv.ended hended).2⟩, fun _ => hworker⟩

/-- A buffer the consumer is done with is empty, since the work it has left comes
to an end with an empty buffer. -/
theorem Inv.consume (hinv : Inv R depth s) {out : List E} {k : Nat}
    (hfinishes : Finishes R s.cells s.out s.worker out k) (hstep : Consume R depth s s') :
    Inv R depth s' := by
  have hplaces := (Step.places_perm (Or.inr hstep)).trans hinv.places
  have hgone : s.hand = .stopped → ∀ {worker}, s.worker = worker → worker = .ended :=
    fun hstopped _ hworker => hworker.symm.trans (hinv.stopped hstopped)
  cases hstep with
  | receive hworker hfull =>
      exact ⟨hplaces, hinv.free, hinv.taken, nofun, hinv.closed, nofun,
        fun hstopped => nomatch hgone hstopped hworker⟩
  | @work b p next c events hworker hwork =>
      have hheld : b ∈ s.worker.held := hworker ▸ List.mem_cons_self
      obtain ⟨hfree, _, hhand⟩ := hinv.of_mem_worker hheld
      refine ⟨hplaces, ?_, ?_, nofun, hinv.closed, nofun,
        fun hstopped => nomatch hgone hstopped hworker⟩
      · intro other hother
        refine (Function.update_of_ne ?_ _ _).trans (hinv.free other hother)
        rintro rfl
        exact hfree hother
      · intro other hother
        refine (Function.update_of_ne ?_ _ _).trans (hinv.taken other hother)
        rintro rfl
        exact hhand ((congrArg Hand.held hother) ▸ List.mem_cons_self)
  | @finish b p hworker hwork =>
      refine ⟨hplaces, hinv.free, hinv.taken, ?_, hinv.closed, nofun,
        fun hstopped => nomatch hgone hstopped hworker⟩
      rintro other ⟨⟩
      rw [hworker] at hfinishes
      cases hfinishes with
      | working hworks => exact (hworks.of_none hwork).1
  | @giveBack b hworker hroom =>
      refine ⟨hplaces, ?_, hinv.taken, nofun, hinv.closed, nofun,
        fun hstopped => nomatch hgone hstopped hworker⟩
      intro other hother
      rcases List.mem_append.mp hother with hfree | hnew
      · exact hinv.free other hfree
      · obtain rfl := List.mem_singleton.mp hnew
        exact hinv.returning other hworker
  | leave hworker hfull hclosed =>
      exact ⟨hplaces, hinv.free, hinv.taken, nofun, hinv.closed, fun _ => ⟨hclosed, hfull⟩,
        fun _ => rfl⟩

end Invariant

section Refinement

variable {A X C P E : Type} {R : Ring A X C P E} {depth : Nat} {s s' : Sys A X C P E}
  {finish : C → List E → List E} {span : C → Nat} {final : List E} {n : Nat}

/-- Writing to a buffer that is not queued changes nothing about the queue. -/
theorem drain_update {full : List Nat} {b : Nat} (hb : b ∉ full) (cells : Nat → C) (c : C)
    (out : List E) :
    drain finish (Function.update cells b c) full out = drain finish cells full out := by
  induction full generalizing out with
  | nil => rfl
  | cons first rest ih =>
      have hne : first ≠ b := fun hsame => hb (hsame ▸ List.mem_cons_self)
      simp only [drain, List.foldl_cons, Function.update_of_ne hne]
      exact ih (fun hmem => hb (List.mem_cons_of_mem first hmem)) _

theorem drainCost_update {full : List Nat} {b : Nat} (hb : b ∉ full) (cells : Nat → C) (c : C) :
    drainCost span (Function.update cells b c) full = drainCost span cells full := by
  induction full with
  | nil => rfl
  | cons other full ih =>
      have hne : other ≠ b := fun hsame => hb (hsame ▸ List.mem_cons_self)
      have hrest : b ∉ full := fun hmem => hb (List.mem_cons_of_mem other hmem)
      rw [drainCost, drainCost, ih hrest, Function.update_of_ne hne]

theorem drainCost_append (span : C → Nat) (cells : Nat → C) (full more : List Nat) :
    drainCost span cells (full ++ more) =
      drainCost span cells full + drainCost span cells more := by
  induction full with
  | nil => exact (Nat.zero_add _).symm
  | cons b full ih =>
      rw [List.cons_append, drainCost, drainCost, ih]
      omega

theorem Finishes.update {cells : Nat → C} {out done : List E} {worker : Worker P} {k : Nat}
    (hfinishes : Finishes R cells out worker done k) {b : Nat} (hb : b ∉ worker.held) (c : C) :
    Finishes R (Function.update cells b c) out worker done k := by
  cases hfinishes with
  | waiting => exact .waiting
  | @working other p final k hworks =>
      have hne : other ≠ b := fun hsame => hb (hsame ▸ List.mem_cons_self)
      apply Finishes.working
      rwa [Function.update_of_ne hne]
  | returning => exact .returning
  | ended => exact .ended

/-- A step of the producer changes nothing about how the system ends. -/
theorem Predicts.produce (hinv : Inv R depth s) (hpredicts : Predicts R finish span s final n)
    (hstep : Produce R depth s s') :
    ∃ rest, n = rest + 1 ∧ Predicts R finish span s' final rest := by
  obtain ⟨out, k, hfinishes, rfl, rfl⟩ := hpredicts
  cases hstep with
  | load hscript hhand =>
      refine ⟨_, ?_, out, k, hfinishes, ?_, rfl⟩
      · simp only [hscript, scriptCost, Sys.ahead, Sys.handCost, hhand]
        omega
      · simp only [hscript, serve, Sys.ahead, Sys.settle, hhand]
  | skip hscript hhand hready =>
      refine ⟨_, ?_, out, k, hfinishes, ?_, rfl⟩
      · simp only [hscript, scriptCost, Sys.ahead, Sys.handCost, hhand, hready,
          Bool.false_eq_true, ↓reduceIte]
        omega
      · simp only [hscript, serve, Sys.ahead, Sys.settle, hhand, hready, Bool.false_eq_true,
          ↓reduceIte]
  | @take rest b free hscript hhand hready hfree =>
      refine ⟨_, ?_, out, k, hfinishes, ?_, rfl⟩
      · simp only [hscript, scriptCost, Sys.ahead, Sys.handCost, hhand, hready, ↓reduceIte]
        omega
      · simp only [hscript, serve, Sys.ahead, Sys.settle, hhand, hready, ↓reduceIte]
  | @swap b hhand =>
      have hheld : b ∈ s.hand.held := hhand ▸ List.mem_cons_self
      obtain ⟨_, hfull, hworker⟩ := hinv.of_mem_hand hheld
      have hblank := hinv.taken b hhand
      refine ⟨_, ?_, out, k, hfinishes.update hworker s.current, ?_, rfl⟩
      · simp only [Sys.ahead, Sys.handCost, hhand, hblank, Function.update_self,
          drainCost_update hfull]
        omega
      · simp only [Sys.ahead, Sys.settle, hhand, hblank, Function.update_self,
          drain_update hfull]
  | @send b hhand hroom =>
      refine ⟨_, ?_, out, k, hfinishes, ?_, rfl⟩
      · simp only [Sys.ahead, Sys.handCost, hhand, drainCost_append, drainCost]
        omega
      · simp only [Sys.ahead, Sys.settle, hhand, drain, List.foldl_append, List.foldl_cons,
          List.foldl_nil]
  | close hscript hhand =>
      refine ⟨_, ?_, out, k, hfinishes, ?_, rfl⟩
      · simp only [Sys.ahead, Sys.handCost, hhand]
        omega
      · simp only [Sys.ahead, Sys.settle, hhand]
  | stop hhand hworker =>
      refine ⟨_, ?_, out, k, hfinishes, ?_, rfl⟩
      · simp only [Sys.ahead, Sys.handCost, hhand]
        omega
      · simp only [Sys.ahead, Sys.settle, hhand]

variable (finish span) in
/-- What the producer is about to send does not depend on the consumer's buffer. -/
theorem hand_update {b : Nat} (hb : b ∉ s.hand.held) (c : C) (worker : Worker P)
    (out outputs : List E) :
    Sys.settle finish { s with
        worker := worker, cells := Function.update s.cells b c, out := outputs } out =
      s.settle finish out ∧
    Sys.handCost span { s with
        worker := worker, cells := Function.update s.cells b c, out := outputs } =
      s.handCost span := by
  cases hhand : s.hand with
  | filled other =>
      rw [hhand] at hb
      have hne : other ≠ b := fun hsame => hb (hsame ▸ List.mem_cons_self)
      simp only [Sys.settle, Sys.handCost, hhand, Function.update_of_ne hne, and_self]
  | idle => simp only [Sys.settle, Sys.handCost, hhand, and_self]
  | taken other => simp only [Sys.settle, Sys.handCost, hhand, and_self]
  | closing => simp only [Sys.settle, Sys.handCost, hhand, and_self]
  | stopped => simp only [Sys.settle, Sys.handCost, hhand, and_self]

theorem Predicts.consume (hwork : ∀ c out, Works R R.start c out (finish c out) (span c))
    (hinv : Inv R depth s) (hpredicts : Predicts R finish span s final n)
    (hstep : Consume R depth s s') :
    ∃ rest, n = rest + 1 ∧ Predicts R finish span s' final rest := by
  obtain ⟨out, k, hfinishes, rfl, rfl⟩ := hpredicts
  cases hstep with
  | @receive b full hworker hfull =>
      rw [hworker] at hfinishes
      cases hfinishes
      refine ⟨_, ?_, _, _, .working (hwork (s.cells b) s.out), ?_, rfl⟩
      · simp only [Sys.ahead, Sys.handCost, hfull, drainCost]
        omega
      · simp only [Sys.ahead, Sys.settle, hfull, drain, List.foldl_cons]
  | @work b p next c events hworker hsome =>
      have hheld : b ∈ s.worker.held := hworker ▸ List.mem_cons_self
      obtain ⟨_, hfull, hhand⟩ := hinv.of_mem_worker hheld
      rw [hworker] at hfinishes
      cases hfinishes with
      | working hworks =>
          obtain ⟨rest, rfl, hrest⟩ := hworks.of_some hsome
          obtain ⟨hsettle, hcost⟩ := hand_update finish span hhand c (.working b next)
            (drain finish s.cells s.full out) (s.out ++ events)
          have hlater : Finishes R (Function.update s.cells b c) (s.out ++ events)
              (.working b next) out (rest + 2) := by
            apply Finishes.working
            rwa [Function.update_self]
          refine ⟨_, ?_, out, _, hlater, ?_, rfl⟩
          · rw [hcost, drainCost_update hfull]
            simp only [Sys.ahead]
            omega
          · rw [drain_update hfull, hsettle]
            rfl
  | finish hworker hnone =>
      rw [hworker] at hfinishes
      cases hfinishes with
      | working hworks =>
          obtain ⟨_, rfl, rfl⟩ := hworks.of_none hnone
          exact ⟨_, rfl, _, _, .returning, rfl, rfl⟩
  | giveBack hworker hroom =>
      rw [hworker] at hfinishes
      cases hfinishes
      exact ⟨_, rfl, _, _, .waiting, rfl, rfl⟩
  | leave hworker hfull hclosed =>
      rw [hworker] at hfinishes
      cases hfinishes
      exact ⟨_, rfl, _, _, .ended, rfl, rfl⟩

/-- What the system ends with begins with what is put out already. -/
theorem Works.out_grows {p : P} {c : C} {out done : List E} {k : Nat}
    (hworks : Works R p c out done k) : out <+: done := by
  induction hworks with
  | done hwork => exact List.prefix_rfl
  | step hwork hrest ih => exact (List.prefix_append _ _).trans ih

theorem Finishes.out_grows {cells : Nat → C} {out done : List E} {worker : Worker P} {k : Nat}
    (hfinishes : Finishes R cells out worker done k) : out <+: done := by
  cases hfinishes with
  | waiting => exact List.prefix_rfl
  | working hworks => exact hworks.out_grows
  | returning => exact List.prefix_rfl
  | ended => exact List.prefix_rfl

theorem drain_grows (hgrows : ∀ c out, out <+: finish c out) (cells : Nat → C)
    (full : List Nat) (out : List E) : out <+: drain finish cells full out := by
  induction full generalizing out with
  | nil => exact List.prefix_rfl
  | cons b rest ih => exact (hgrows (cells b) out).trans (ih _)

theorem serve_grows (hgrows : ∀ c out, out <+: finish c out) (script : List (Op A)) (notes : X)
    (c : C) (out : List E) : out <+: serve R finish script notes c out := by
  induction script generalizing notes c out with
  | nil => exact List.prefix_rfl
  | cons op rest ih =>
      cases op with
      | load item => exact ih _ _ _
      | flush =>
          simp only [serve]
          split
          · exact (hgrows c out).trans (ih _ _ _)
          · exact ih _ _ _

theorem Predicts.out_grows (hwork : ∀ c out, Works R R.start c out (finish c out) (span c))
    (hpredicts : Predicts R finish span s final n) : s.out <+: final := by
  obtain ⟨out, k, hfinishes, rfl, _⟩ := hpredicts
  have hgrows : ∀ c out, out <+: finish c out := fun c out => (hwork c out).out_grows
  have hsettle : ∀ out, out <+: s.settle finish out := by
    intro out
    rw [Sys.settle]
    split
    · exact hgrows _ _
    · exact hgrows _ _
    · exact List.prefix_rfl
  have hqueued := hfinishes.out_grows.trans (drain_grows hgrows s.cells s.full out)
  exact (hqueued.trans (hsettle _)).trans (serve_grows hgrows _ _ _ _)

/-- Once the producer is gone everything has been put out, and no step is left. -/
theorem Predicts.stopped (hinv : Inv R depth s) (hpredicts : Predicts R finish span s final n)
    (hstopped : s.hand = .stopped) : s.out = final ∧ n = 0 := by
  obtain ⟨out, k, hfinishes, rfl, rfl⟩ := hpredicts
  have hended := hinv.stopped hstopped
  have hscript := hinv.closed (hstopped ▸ rfl)
  have hfull := (hinv.ended hended).2
  rw [hended] at hfinishes
  cases hfinishes
  simp [hscript, hfull, hstopped, serve, Sys.settle, drain, scriptCost, Sys.handCost, drainCost]

theorem predicts_initial (notes : X) (script : List (Op A)) :
    Predicts R finish span (Sys.initial R depth notes script)
      (serve R finish script notes R.blank []) (scriptCost R span script notes R.blank + 3) :=
  ⟨[], 1, .waiting, rfl, rfl⟩

end Refinement

section Runs

variable {A X C P E : Type} {R : Ring A X C P E} {depth : Nat} {s s' : Sys A X C P E}
  {finish : C → List E → List E} {span : C → Nat} {notes : X} {script : List (Op A)}

/-- Every state an interleaving comes to keeps the invariant and has the same end
ahead, nearer by the steps taken. -/
theorem Reach.predicts (hwork : ∀ c out, Works R R.start c out (finish c out) (span c)) {m : Nat}
    (hreach : Reach R depth (Sys.initial R depth notes script) m s) :
    Inv R depth s ∧ ∃ n, m + n = scriptCost R span script notes R.blank + 3 ∧
      Predicts R finish span s (serve R finish script notes R.blank []) n := by
  induction hreach with
  | start => exact ⟨inv_initial notes script, _, Nat.zero_add _, predicts_initial notes script⟩
  | step hreach hstep ih =>
      obtain ⟨hinv, n, hsum, hpredicts⟩ := ih
      rcases hstep with hproduce | hconsume
      · obtain ⟨rest, rfl, hrest⟩ := hpredicts.produce hinv hproduce
        exact ⟨hinv.produce hproduce, rest, by omega, hrest⟩
      · obtain ⟨rest, rfl, hrest⟩ := hpredicts.consume hwork hinv hconsume
        obtain ⟨out, k, hfinishes, _⟩ := hpredicts
        exact ⟨hinv.consume hfinishes hconsume, rest, by omega, hrest⟩

/-- The consumer owes a buffer: one is queued, or it has one. -/
def Sys.Owes (s : Sys A X C P E) : Prop :=
  s.full ≠ [] ∨ s.worker.held ≠ []

/-- The producer is waiting: for a free buffer, or for room in the queue. -/
def Sys.Blocked (R : Ring A X C P E) (depth : Nat) (s : Sys A X C P E) : Prop :=
  (s.hand = .idle ∧ (∃ rest, s.script = .flush :: rest) ∧ R.ready s.current = true ∧ s.free = []) ∨
    ∃ b, s.hand = .filled b ∧ depth ≤ s.full.length

/-- The free list always has room for the buffer the consumer brings back. -/
theorem Inv.room (hinv : Inv R depth s) {b : Nat} (hworker : s.worker = .returning b) :
    s.free.length < depth + 1 := by
  have hlength := hinv.length
  have hheld : s.worker.held.length = 1 := congrArg List.length (congrArg Worker.held hworker)
  omega

theorem Inv.consume_of_owes (hinv : Inv R depth s) (howes : s.Owes) :
    ∃ s', Consume R depth s s' := by
  cases hworker : s.worker with
  | waiting =>
      cases hfull : s.full with
      | nil =>
          rcases howes with hqueued | hheld
          · exact absurd hfull hqueued
          · exact absurd (congrArg Worker.held hworker) hheld
      | cons b full => exact ⟨_, .receive hworker hfull⟩
  | working b p =>
      cases hwork : R.work p (s.cells b) s.out with
      | none => exact ⟨_, .finish hworker hwork⟩
      | some result => exact ⟨_, .work hworker hwork⟩
  | returning b => exact ⟨_, .giveBack hworker (hinv.room hworker)⟩
  | ended =>
      rcases howes with hqueued | hheld
      · exact absurd (hinv.ended hworker).2 hqueued
      · exact absurd (congrArg Worker.held hworker) hheld

/-- The producer waits only while the consumer owes it a buffer. -/
theorem Inv.owes_of_blocked (hinv : Inv R depth s) (hdepth : 0 < depth)
    (hblocked : s.Blocked R depth) : s.Owes := by
  have hlength := hinv.length
  rcases hblocked with ⟨hhand, _, _, hfree⟩ | ⟨b, hhand, hfull⟩
  · have hheld : s.hand.held.length = 0 := congrArg List.length (congrArg Hand.held hhand)
    have hnone : s.free.length = 0 := congrArg List.length hfree
    by_cases hqueued : s.full = []
    · refine Or.inr fun hidle => ?_
      rw [hqueued, hidle] at hlength
      simp only [List.length_nil] at hlength
      omega
    · exact Or.inl hqueued
  · refine Or.inl fun hempty => ?_
    rw [hempty, List.length_nil] at hfull
    omega

/-- No state is stuck before the producer is gone. -/
theorem Inv.progress (hinv : Inv R depth s) (hdepth : 0 < depth) (hrunning : s.hand ≠ .stopped) :
    ∃ s', Step R depth s s' := by
  by_cases howes : s.Owes
  · obtain ⟨s', hconsume⟩ := hinv.consume_of_owes howes
    exact ⟨s', Or.inr hconsume⟩
  · have hclear : ¬ s.Blocked R depth := fun hblocked =>
      howes (hinv.owes_of_blocked hdepth hblocked)
    cases hhand : s.hand with
    | idle =>
        cases hscript : s.script with
        | nil => exact ⟨_, Or.inl (.close hscript hhand)⟩
        | cons op rest =>
            cases op with
            | load item => exact ⟨_, Or.inl (.load hscript hhand)⟩
            | flush =>
                cases hready : R.ready s.current with
                | false => exact ⟨_, Or.inl (.skip hscript hhand hready)⟩
                | true =>
                    cases hfree : s.free with
                    | nil => exact absurd (Or.inl ⟨hhand, ⟨rest, hscript⟩, hready, hfree⟩) hclear
                    | cons b free => exact ⟨_, Or.inl (.take hscript hhand hready hfree)⟩
    | taken b => exact ⟨_, Or.inl (.swap hhand)⟩
    | filled b =>
        by_cases hroom : s.full.length < depth
        · exact ⟨_, Or.inl (.send hhand hroom)⟩
        · exact absurd (Or.inr ⟨b, hhand, Nat.le_of_not_lt hroom⟩) hclear
    | closing =>
        have hfull : s.full = [] := by
          by_contra hqueued
          exact howes (Or.inl hqueued)
        cases hworker : s.worker with
        | waiting => exact ⟨_, Or.inr (.leave hworker hfull (hhand ▸ rfl))⟩
        | ended => exact ⟨_, Or.inl (.stop hhand hworker)⟩
        | working b p =>
            exact absurd (Or.inr (hworker ▸ List.cons_ne_nil b [])) howes
        | returning b => exact absurd (Or.inr (hworker ▸ List.cons_ne_nil b [])) howes
    | stopped => exact absurd hhand hrunning

theorem Reach.head {s₀ : Sys A X C P E} {m : Nat} (hstep : Step R depth s₀ s)
    (hreach : Reach R depth s m s') : Reach R depth s₀ (m + 1) s' := by
  induction hreach with
  | start => exact .step .start hstep
  | step _ hlast ih => exact .step ih hlast

/-- Every interleaving comes to its end, and after the same number of steps. -/
theorem Reach.ends (hwork : ∀ c out, Works R R.start c out (finish c out) (span c))
    (hdepth : 0 < depth) {m : Nat}
    (hreach : Reach R depth (Sys.initial R depth notes script) m s) :
    ∃ n s', m + n = scriptCost R span script notes R.blank + 3 ∧ Reach R depth s n s' ∧
      s'.hand = .stopped := by
  obtain ⟨hinv, n, hsum, hpredicts⟩ := hreach.predicts hwork
  induction n generalizing m s with
  | zero =>
      by_cases hstopped : s.hand = .stopped
      · exact ⟨0, s, hsum, .start, hstopped⟩
      · obtain ⟨s', hstep⟩ := hinv.progress hdepth hstopped
        obtain ⟨_, left, hleft, _⟩ := (hreach.step hstep).predicts hwork
        omega
  | succ n ih =>
      by_cases hstopped : s.hand = .stopped
      · cases (hpredicts.stopped hinv hstopped).2
      · obtain ⟨s', hstep⟩ := hinv.progress hdepth hstopped
        obtain ⟨hinv', left, hleft, hpredicts'⟩ := (hreach.step hstep).predicts hwork
        obtain rfl : left = n := by omega
        obtain ⟨rest, last, hrest, hlater, hstopped'⟩ :=
          ih (hreach.step hstep) hinv' hleft hpredicts'
        exact ⟨rest + 1, last, by omega, hlater.head hstep, hstopped'⟩

end Runs

end Handoff
