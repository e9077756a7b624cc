/-
The life of the process.  `main` starts the workers, the TCP listener and the other
goroutines, waits for a signal or a restart request, and then drains: it marks itself
draining, sleeps, closes `done` and waits for its wait group.  Every socket has a goroutine
that closes it once `done` is.  Meanwhile load balancers probe `/readyz`, which reads one
atomic after the other.  All of them take turns in any order.  A process that is killed, or
that exits since the beacon's groups cannot be derived, takes no further turn.
-/
import ShardProxy.Lib.Crew
import Mathlib.Logic.Relation

namespace ShardProxy

inductive MainPc where
  | launching (started : Nat)
  | requiring
  | listening
  | laning (started : Nat)
  | waiting
  | draining
  | sleeping
  | closing
  | joining
  | exited
deriving DecidableEq

/-- What a read or an accept fails with, as far as the loops tell errors apart. -/
inductive SockErr where
  | closed
  | ebadf
  | einval
  | other

def isClosedErr : SockErr → Bool
  | .other => false
  | _ => true

/-- An error that is taken for a close, though nobody closed the socket. -/
def SockErr.isFault : SockErr → Bool
  | .ebadf | .einval => true
  | _ => false

/-- A worker counts as ready from `WorkerReady` to `WorkerDone`.  In between it makes its
egress and its tees, and then reads until its loop ends by an error. -/
inductive WorkerPhase where
  | unborn
  | starting
  | failed
  | ready
  | looping
  | leaving (err : SockErr)
  | gone (err : SockErr)

/-- The TCP listener.  It says that it is ready before it opens its egress sockets; if that
fails the socket stays bound, but nobody accepts. -/
inductive ListenerPhase where
  | unborn
  | starting
  | failed
  | bound
  | signalled
  | stranded
  | accepting
  | gone (err : SockErr)

/-- Any other goroutine of the wait group. -/
inductive LanePhase where
  | unborn
  | running
  | gone

/-- The atomics of the recorder that `/readyz` reads. -/
structure Readiness where
  readyCount : Int
  tcpIngressRequired : Bool
  tcpIngressReady : Bool
  draining : Bool

inductive ReadyStatus where
  | draining
  | ready
  | starting

/-- The answer of `/readyz`: its code and the fields of its body. -/
structure ReadyAnswer where
  code : Nat
  status : ReadyStatus
  workersReady : Int
  workersTotal : Int
  tcpIngressRequired : Bool
  tcpIngressReady : Bool

/-- `handleReadyz`, by what it has read. -/
def handleReadyz (ready total : Int) (tcpReq tcpRdy draining : Bool) : ReadyAnswer :=
  if draining then ⟨503, .draining, ready, total, tcpReq, tcpRdy⟩
  else if total ≤ ready ∧ 0 < total ∧ (tcpReq = false ∨ tcpRdy = true) then
    ⟨200, .ready, ready, total, tcpReq, tcpRdy⟩
  else ⟨503, .starting, ready, total, tcpReq, tcpRdy⟩

/-- What had been announced when a probe began; the handler does not keep it. -/
structure Since where
  required : Bool
  draining : Bool

/-- A request of `/readyz` between its reads. -/
inductive Probe where
  | idle
  | counted (since : Since) (ready : Int)
  | required (since : Since) (ready : Int) (tcpReq : Bool)
  | bound (since : Since) (ready : Int) (tcpReq tcpRdy : Bool)
  | answered (since : Since) (answer : ReadyAnswer)

/-- The process with its workers and its other lanes. -/
structure Life (workers lanes : Nat) where
  main : MainPc
  worker : Fin workers → WorkerPhase
  listener : ListenerPhase
  lane : Fin lanes → LanePhase
  recorder : Readiness
  done : Bool
  sockClosed : Fin workers → Bool
  lnClosed : Bool
  probe : Nat → Probe

inductive Party (workers lanes : Nat) where
  | main
  | worker (i : Fin workers)
  | listener
  | lane (j : Fin lanes)
  | probe (p : Nat)

variable {workers lanes : Nat} {tcp : Bool} {s s' : Life workers lanes}

def Life.start : Life workers lanes where
  main := .launching 0
  worker _ := .unborn
  listener := .unborn
  lane _ := .unborn
  recorder := ⟨0, false, false, false⟩
  done := false
  sockClosed _ := false
  lnClosed := false
  probe _ := .idle

def WorkerPhase.over : WorkerPhase → Bool
  | .failed | .gone _ => true
  | _ => false

def ListenerPhase.over : ListenerPhase → Bool
  | .unborn | .failed | .stranded | .gone _ => true
  | _ => false

/-- The wait group is at zero. -/
def Life.Joined (s : Life workers lanes) : Prop :=
  (∀ i, (s.worker i).over = true) ∧ s.listener.over = true ∧ ∀ j, s.lane j = .gone

def Life.setWorker (s : Life workers lanes) (i : Fin workers) (phase : WorkerPhase) :
    Life workers lanes :=
  { s with worker := Function.update s.worker i phase }

def Life.setLane (s : Life workers lanes) (j : Fin lanes) (phase : LanePhase) :
    Life workers lanes :=
  { s with lane := Function.update s.lane j phase }

/-- The moves of `main`; `tcp` says whether a TCP port is configured.  A signal, or the
applier's request to restart, may come at any time that `main` waits. -/
inductive MainStep (tcp : Bool) (s : Life workers lanes) : Life workers lanes → Prop where
  | startsWorker {k : Nat} (hpc : s.main = .launching k) (hk : k < workers) :
      MainStep tcp s { s.setWorker ⟨k, hk⟩ .starting with main := .launching (k + 1) }
  | startedWorkers (hpc : s.main = .launching workers) :
      MainStep tcp s { s with main := if tcp then .requiring else .laning 0 }
  | requiresTCP (hpc : s.main = .requiring) :
      MainStep tcp s { s with
        main := .listening
        recorder := { s.recorder with tcpIngressRequired := true } }
  | startsListener (hpc : s.main = .listening) :
      MainStep tcp s { s with main := .laning 0, listener := .starting }
  | startsLane {k : Nat} (hpc : s.main = .laning k) (hk : k < lanes) :
      MainStep tcp s { s.setLane ⟨k, hk⟩ .running with main := .laning (k + 1) }
  | notifies (hpc : s.main = .laning lanes) : MainStep tcp s { s with main := .waiting }
  | signalled (hpc : s.main = .waiting) : MainStep tcp s { s with main := .draining }
  | setsDraining (hpc : s.main = .draining) :
      MainStep tcp s { s with
        main := .sleeping
        recorder := { s.recorder with draining := true } }
  | sleeps (hpc : s.main = .sleeping) : MainStep tcp s { s with main := .closing }
  | closesDone (hpc : s.main = .closing) :
      MainStep tcp s { s with main := .joining, done := true }
  | joins (hpc : s.main = .joining) (hjoined : s.Joined) :
      MainStep tcp s { s with main := .exited }

/-- The moves of a worker and of the goroutine that closes its socket.  A read fails with
`net.ErrClosed` only on a closed socket; the loop goes on after an error that is no close. -/
inductive WorkerStep (s : Life workers lanes) (i : Fin workers) : Life workers lanes → Prop where
  | fails (hphase : s.worker i = .starting) : WorkerStep s i (s.setWorker i .failed)
  | readies (hphase : s.worker i = .starting) :
      WorkerStep s i { s.setWorker i .ready with
        recorder := { s.recorder with readyCount := s.recorder.readyCount + 1 } }
  | enters (hphase : s.worker i = .ready) : WorkerStep s i (s.setWorker i .looping)
  | closes (hborn : s.worker i ≠ .unborn) (hdone : s.done = true) :
      WorkerStep s i { s with sockClosed := Function.update s.sockClosed i true }
  | leaves {err : SockErr} (hphase : s.worker i = .looping)
      (hread : err = .closed → s.sockClosed i = true) (herr : isClosedErr err = true) :
      WorkerStep s i (s.setWorker i (.leaving err))
  | finishes {err : SockErr} (hphase : s.worker i = .leaving err) :
      WorkerStep s i { s.setWorker i (.gone err) with
        recorder := { s.recorder with readyCount := s.recorder.readyCount - 1 } }

/-- The moves of the TCP listener and of the goroutine that closes its socket.  It leaves
with its last connection. -/
inductive ListenerStep (s : Life workers lanes) : Life workers lanes → Prop where
  | fails (hphase : s.listener = .starting) : ListenerStep s { s with listener := .failed }
  | binds (hphase : s.listener = .starting) : ListenerStep s { s with listener := .bound }
  | signals (hphase : s.listener = .bound) :
      ListenerStep s { s with
        listener := .signalled
        recorder := { s.recorder with tcpIngressReady := true } }
  | strands (hphase : s.listener = .signalled) : ListenerStep s { s with listener := .stranded }
  | accepts (hphase : s.listener = .signalled) : ListenerStep s { s with listener := .accepting }
  | closes (hborn : s.listener ≠ .unborn) (hdone : s.done = true) :
      ListenerStep s { s with lnClosed := true }
  | leaves {err : SockErr} (hphase : s.listener = .accepting)
      (haccept : err = .closed → s.lnClosed = true) (herr : isClosedErr err = true) :
      ListenerStep s { s with listener := .gone err }

/-- The next read of a probe, in the order of the handler. -/
def Life.probeNext (s : Life workers lanes) : Probe → Option Probe
  | .idle => some (.counted ⟨s.recorder.tcpIngressRequired, s.recorder.draining⟩
      s.recorder.readyCount)
  | .counted since ready => some (.required since ready s.recorder.tcpIngressRequired)
  | .required since ready tcpReq => some (.bound since ready tcpReq s.recorder.tcpIngressReady)
  | .bound since ready tcpReq tcpRdy =>
      some (.answered since (handleReadyz ready workers tcpReq tcpRdy s.recorder.draining))
  | .answered _ _ => none

/-- One move of the process, which is there until `main` returns.  A lane ends once `done`
is closed, or by an error of its own. -/
inductive LifeStep (tcp : Bool) (s : Life workers lanes) :
    Party workers lanes → Life workers lanes → Prop where
  | main {s' : Life workers lanes} (hstep : MainStep tcp s s') : LifeStep tcp s .main s'
  | worker {s' : Life workers lanes} {i : Fin workers} (halive : s.main ≠ .exited)
      (hstep : WorkerStep s i s') : LifeStep tcp s (.worker i) s'
  | listener {s' : Life workers lanes} (halive : s.main ≠ .exited) (hstep : ListenerStep s s') :
      LifeStep tcp s .listener s'
  | lane {j : Fin lanes} (halive : s.main ≠ .exited) (hphase : s.lane j = .running) :
      LifeStep tcp s (.lane j) (s.setLane j .gone)
  | probe {p : Nat} {next : Probe} (halive : s.main ≠ .exited)
      (hnext : s.probeNext (s.probe p) = some next) :
      LifeStep tcp s (.probe p) { s with probe := Function.update s.probe p next }

def LifeRun (tcp : Bool) : Life workers lanes → Life workers lanes → Prop :=
  Relation.ReflTransGen fun s s' => ∃ p, LifeStep tcp s p s'

/-! What the phases of `main` say about the rest. -/

/-- `main` has set the draining flag. -/
def MainPc.drained : MainPc → Bool
  | .sleeping | .closing | .joining | .exited => true
  | _ => false

/-- `main` has closed `done`. -/
def MainPc.closed : MainPc → Bool
  | .joining | .exited => true
  | _ => false

def MainPc.startedWorkers (workers : Nat) : MainPc → Nat
  | .launching k => k
  | _ => workers

/-- `main` may have started the listener. -/
def MainPc.pastListener : MainPc → Bool
  | .launching _ | .requiring | .listening => false
  | _ => true

/-- Between `WorkerReady` and `WorkerDone`. -/
def WorkerPhase.counted : WorkerPhase → Int
  | .ready | .looping | .leaving _ => 1
  | _ => 0

def WorkerPhase.error : WorkerPhase → Option SockErr
  | .leaving err | .gone err => some err
  | _ => none

def WorkerPhase.wasReady : WorkerPhase → Bool
  | .ready | .looping | .leaving _ | .gone _ => true
  | _ => false

def ListenerPhase.error : ListenerPhase → Option SockErr
  | .gone err => some err
  | _ => none

/-- It has said that it is ready. -/
def ListenerPhase.wasSignalled : ListenerPhase → Bool
  | .signalled | .stranded | .accepting | .gone _ => true
  | _ => false

/-- A loop that has ended was closed, or has met with a fault. -/
def EndsIn (done : Bool) (ended : Option SockErr) : Prop :=
  ∀ err, ended = some err → done = true ∨ err.isFault = true

/-- What holds of the parties whenever one of them moves. -/
structure Life.Sound (s : Life workers lanes) : Prop where
  drained : s.recorder.draining = s.main.drained
  closed : s.done = s.main.closed
  unborn : ∀ i, s.main.startedWorkers workers ≤ i.val → s.worker i = .unborn
  noListener : s.main.pastListener = false → s.listener = .unborn
  count : s.recorder.readyCount = Crew.tally WorkerPhase.counted s.worker
  sockClosed : ∀ i, s.sockClosed i = true → s.done = true
  lnClosed : s.lnClosed = true → s.done = true
  left : ∀ i, EndsIn s.done (s.worker i).error
  listenerLeft : EndsIn s.done s.listener.error
  signalled : s.recorder.tcpIngressReady = true → s.listener.wasSignalled = true
  joined : s.main = .exited → s.Joined

theorem Life.sound_start : (Life.start : Life workers lanes).Sound where
  drained := rfl
  closed := rfl
  unborn _ _ := rfl
  noListener _ := rfl
  count := by simp [Life.start, Crew.tally, WorkerPhase.counted]
  sockClosed _ h := by cases h
  lnClosed h := by cases h
  left _ _ h := by cases h
  listenerLeft _ h := by cases h
  signalled h := by cases h
  joined h := by cases h

theorem Life.Sound.at_pc (hsound : s.Sound) {pc : MainPc} (hpc : s.main = pc) :
    s.recorder.draining = pc.drained ∧ s.done = pc.closed ∧
      (∀ i, pc.startedWorkers workers ≤ i.val → s.worker i = .unborn) ∧
      (pc.pastListener = false → s.listener = .unborn) := by
  subst hpc
  exact ⟨hsound.drained, hsound.closed, hsound.unborn, hsound.noListener⟩

theorem Life.Sound.startWorker (hsound : s.Sound) {k : Nat} (hpc : s.main = .launching k)
    (hk : k < workers) :
    ({ s.setWorker ⟨k, hk⟩ .starting with main := .launching (k + 1) } :
      Life workers lanes).Sound := by
  obtain ⟨hdrained, hclosed, hunborn, hlistener⟩ := hsound.at_pc hpc
  -- neither a worker that is not there nor one that starts is counted
  have htally := Crew.tally_update WorkerPhase.counted s.worker ⟨k, hk⟩ .starting
  rw [hunborn ⟨k, hk⟩ (le_refl k)] at htally
  exact { hsound with
    drained := hdrained
    closed := hclosed
    unborn := Crew.forall_update
      (P := fun (i : Fin workers) (a : WorkerPhase) => k + 1 ≤ i.val → a = .unborn)
      (fun i _ hi => hunborn i (Nat.le_of_succ_le hi))
      (fun hle => absurd hle (Nat.not_succ_le_self k))
    noListener := hlistener
    count := hsound.count.trans (add_right_cancel htally).symm
    left := Crew.forall_update (P := fun _ (a : WorkerPhase) => EndsIn s.done a.error)
      (fun i _ => hsound.left i) (fun _ h => by cases h)
    joined := fun hexited => by cases hexited }

theorem Life.Sound.moveWorker (hsound : s.Sound) (halive : s.main ≠ .exited) (i : Fin workers)
    {phase : WorkerPhase} {count : Int} (hborn : s.worker i ≠ .unborn)
    (hleft : EndsIn s.done phase.error)
    (hcount : count + (s.worker i).counted = s.recorder.readyCount + phase.counted) :
    ({ s.setWorker i phase with
      recorder := { s.recorder with readyCount := count } } : Life workers lanes).Sound :=
  { hsound with
    unborn := Crew.forall_update (P := fun (k : Fin workers) (a : WorkerPhase) =>
        s.main.startedWorkers workers ≤ k.val → a = .unborn)
      (fun k _ => hsound.unborn k) (fun hle => absurd (hsound.unborn i hle) hborn)
    count := by
      have htally := Crew.tally_update WorkerPhase.counted s.worker i phase
      have hbefore := hsound.count
      change count = Crew.tally WorkerPhase.counted (Function.update s.worker i phase)
      omega
    left := Crew.forall_update (P := fun _ (a : WorkerPhase) => EndsIn s.done a.error)
      (fun k _ => hsound.left k) hleft
    joined := fun hexited => absurd hexited halive }

/-- A loop ends since its socket was closed, and so is `done`, or by a fault. -/
theorem endsIn_of_isClosedErr {err : SockErr} {closed done : Bool} (herr : isClosedErr err = true)
    (hread : err = .closed → closed = true) (hclosed : closed = true → done = true) :
    EndsIn done (some err) := by
  rintro _ ⟨⟩
  cases err with
  | closed => exact Or.inl (hclosed (hread rfl))
  | ebadf | einval => exact Or.inr rfl
  | other => cases herr

theorem WorkerStep.sound {i : Fin workers} (hstep : WorkerStep s i s') (halive : s.main ≠ .exited)
    (hsound : s.Sound) : s'.Sound := by
  cases hstep with
  | fails hphase =>
      refine hsound.moveWorker halive i (by simp [hphase]) (fun _ hleft => by cases hleft) ?_
      rw [hphase]
      rfl
  | readies hphase =>
      refine hsound.moveWorker halive i (by simp [hphase]) (fun _ hleft => by cases hleft) ?_
      simp [hphase, WorkerPhase.counted]
  | enters hphase =>
      refine hsound.moveWorker halive i (by simp [hphase]) (fun _ hleft => by cases hleft) ?_
      rw [hphase]
      rfl
  | closes hborn hdone => exact { hsound with sockClosed := fun _ _ => hdone }
  | leaves hphase hread herr =>
      have hended := endsIn_of_isClosedErr herr hread (hsound.sockClosed i)
      refine hsound.moveWorker halive i (by simp [hphase]) hended ?_
      rw [hphase]
      rfl
  | finishes hphase =>
      have hended := hsound.left i
      rw [hphase] at hended
      refine hsound.moveWorker halive i (by simp [hphase]) hended ?_
      simp [hphase, WorkerPhase.counted]

theorem Life.Sound.moveListener (hsound : s.Sound) (halive : s.main ≠ .exited)
    {phase : ListenerPhase} {ready : Bool} (hborn : s.listener ≠ .unborn)
    (hleft : EndsIn s.done phase.error) (hready : ready = true → phase.wasSignalled = true) :
    ({ s with
      listener := phase
      recorder := { s.recorder with tcpIngressReady := ready } } : Life workers lanes).Sound :=
  { hsound with
    noListener := fun hpast => absurd (hsound.noListener hpast) hborn
    listenerLeft := hleft
    signalled := hready
    joined := fun hexited => absurd hexited halive }

theorem ListenerStep.sound (hstep : ListenerStep s s') (halive : s.main ≠ .exited)
    (hsound : s.Sound) : s'.Sound := by
  cases hstep with
  | fails hphase | binds hphase =>
      have hready := hsound.signalled
      rw [hphase] at hready
      exact hsound.moveListener halive (by simp [hphase]) (fun _ hgone => by cases hgone) hready
  | closes hborn hdone => exact { hsound with lnClosed := fun _ => hdone }
  | leaves hphase haccept herr =>
      have hended := endsIn_of_isClosedErr herr haccept hsound.lnClosed
      exact hsound.moveListener halive (by simp [hphase]) hended (fun _ => rfl)
  | signals hphase | strands hphase | accepts hphase =>
      exact hsound.moveListener halive (by simp [hphase]) (fun _ hgone => by cases hgone)
        (fun _ => rfl)

/-- `main` goes on, and nothing that was said of its place changes. -/
theorem Life.Sound.goOn (hsound : s.Sound) {pc : MainPc} (next : MainPc) (hpc : s.main = pc)
    (hdrained : next.drained = pc.drained) (hclosed : next.closed = pc.closed)
    (hstarted : next.startedWorkers workers = pc.startedWorkers workers)
    (hpast : next.pastListener = false → pc.pastListener = false)
    (hjoined : next = .exited → s.Joined) :
    ({ s with main := next } : Life workers lanes).Sound := by
  subst hpc
  exact { hsound with
    drained := hsound.drained.trans hdrained.symm
    closed := hsound.closed.trans hclosed.symm
    unborn := fun i hi => hsound.unborn i (hstarted ▸ hi)
    noListener := fun hnext => hsound.noListener (hpast hnext)
    joined := hjoined }

theorem MainStep.sound (hstep : MainStep tcp s s') (hsound : s.Sound) : s'.Sound := by
  cases hstep with
  | startsWorker hpc hk => exact hsound.startWorker hpc hk
  | startedWorkers hpc =>
      cases tcp <;>
        exact hsound.goOn _ hpc rfl rfl rfl (fun _ => rfl) (fun hexited => by cases hexited)
  | requiresTCP hpc =>
      exact { hsound.goOn .listening hpc rfl rfl rfl (fun _ => rfl)
        (fun hexited => by cases hexited) with }
  | startsListener hpc =>
      obtain ⟨hdrained, hclosed, hunborn, hlistener⟩ := hsound.at_pc hpc
      have hready := hsound.signalled
      rw [hlistener rfl] at hready
      exact { hsound with
        drained := hdrained, closed := hclosed, unborn := hunborn, signalled := hready
        noListener := fun hpast => by cases hpast
        listenerLeft := fun _ hgone => by cases hgone
        joined := fun hexited => by cases hexited }
  | setsDraining hpc =>
      obtain ⟨-, hclosed, hunborn, -⟩ := hsound.at_pc hpc
      exact { hsound with
        drained := rfl, closed := hclosed, unborn := hunborn
        noListener := fun hpast => by cases hpast
        joined := fun hexited => by cases hexited }
  | closesDone hpc =>
      obtain ⟨hdrained, -, hunborn, -⟩ := hsound.at_pc hpc
      exact { hsound with
        drained := hdrained, closed := rfl, unborn := hunborn
        noListener := fun hpast => by cases hpast
        sockClosed := fun _ _ => rfl
        lnClosed := fun _ => rfl
        left := fun _ _ _ => Or.inl rfl
        listenerLeft := fun _ _ => Or.inl rfl
        joined := fun hexited => by cases hexited }
  | joins hpc hjoined => exact hsound.goOn _ hpc rfl rfl rfl id fun _ => hjoined
  | startsLane hpc =>
      exact { hsound.goOn (.laning _) hpc rfl rfl rfl id (fun hexited => by cases hexited) with
        joined := fun hexited => by cases hexited }
  | notifies hpc | signalled hpc | sleeps hpc =>
      exact hsound.goOn _ hpc rfl rfl rfl id fun hexited => by cases hexited

theorem LifeStep.sound {p : Party workers lanes} (hstep : LifeStep tcp s p s')
    (hsound : s.Sound) : s'.Sound := by
  cases hstep with
  | main hstep => exact hstep.sound hsound
  | worker halive hstep => exact hstep.sound halive hsound
  | listener halive hstep => exact hstep.sound halive hsound
  | lane halive => exact { hsound with joined := fun hexited => absurd hexited halive }
  | probe => exact { hsound with }

theorem LifeRun.sound (hrun : LifeRun tcp s s') (hsound : s.Sound) : s'.Sound := by
  induction hrun with
  | refl => exact hsound
  | tail _ hstep ih => exact hstep.choose_spec.sound ih

/-! Probes. -/

/-- What does not come undone. -/
structure Life.Later (s s' : Life workers lanes) : Prop where
  wasReady : ∀ i, (s.worker i).wasReady = true → (s'.worker i).wasReady = true
  wasSignalled : s.listener.wasSignalled = true → s'.listener.wasSignalled = true
  required : s.recorder.tcpIngressRequired = true → s'.recorder.tcpIngressRequired = true
  draining : s.recorder.draining = true → s'.recorder.draining = true

theorem Life.wasReady_setWorker {i : Fin workers} {phase : WorkerPhase}
    (hmoved : (s.worker i).wasReady = true → phase.wasReady = true) :
    ∀ k, (s.worker k).wasReady = true → ((s.setWorker i phase).worker k).wasReady = true :=
  Crew.update_related (R := fun a b : WorkerPhase => a.wasReady = true → b.wasReady = true)
    (fun _ => id) hmoved

theorem LifeStep.later {p : Party workers lanes} (hstep : LifeStep tcp s p s')
    (hsound : s.Sound) : s.Later s' := by
  cases hstep with
  | main hstep =>
      cases hstep with
      | @startsWorker k hpc hk =>
          obtain ⟨-, -, hunborn, -⟩ := hsound.at_pc hpc
          refine ⟨Life.wasReady_setWorker ?_, id, id, id⟩
          rw [hunborn ⟨k, hk⟩ (le_refl k)]
          exact id
      | requiresTCP => exact ⟨fun _ => id, id, fun _ => rfl, id⟩
      | startsListener hpc =>
          refine ⟨fun _ => id, ?_, id, id⟩
          rw [(hsound.at_pc hpc).2.2.2 rfl]
          exact id
      | setsDraining => exact ⟨fun _ => id, id, id, fun _ => rfl⟩
      | _ => exact ⟨fun _ => id, id, id, id⟩
  | worker _ hstep =>
      cases hstep with
      | fails hphase =>
          refine ⟨Life.wasReady_setWorker ?_, id, id, id⟩
          rw [hphase]
          exact id
      | closes => exact ⟨fun _ => id, id, id, id⟩
      | _ => exact ⟨Life.wasReady_setWorker fun _ => rfl, id, id, id⟩
  | listener _ hstep =>
      cases hstep with
      | fails hphase | binds hphase =>
          refine ⟨fun _ => id, ?_, id, id⟩
          rw [hphase]
          exact id
      | closes => exact ⟨fun _ => id, id, id, id⟩
      | _ => exact ⟨fun _ => id, fun _ => rfl, id, id⟩
  | lane => exact ⟨fun _ => id, id, id, id⟩
  | probe => exact ⟨fun _ => id, id, id, id⟩

/-- What is known since a count was read: a full one was read when everybody was ready. -/
structure Life.Counted (s : Life workers lanes) (since : Since) (ready : Int) : Prop where
  full : (workers : Int) ≤ ready → ∀ i, (s.worker i).wasReady = true
  required : since.required = true → s.recorder.tcpIngressRequired = true
  draining : since.draining = true → s.recorder.draining = true

/-- What a probe knows by what it has read so far. -/
def Life.Knows (s : Life workers lanes) : Probe → Prop
  | .idle => True
  | .counted since ready => s.Counted since ready
  | .required since ready tcpReq =>
      s.Counted since ready ∧ (since.required = true → tcpReq = true)
  | .bound since ready tcpReq tcpRdy =>
      s.Counted since ready ∧ (since.required = true → tcpReq = true) ∧
        (tcpRdy = true → s.listener.wasSignalled = true)
  | .answered since answer =>
      since.draining = true → answer.code = 503 ∧ answer.status = .draining

theorem Life.Counted.later {since : Since} {ready : Int} (hcounted : s.Counted since ready)
    (hlater : s.Later s') : s'.Counted since ready where
  full hready i := hlater.wasReady i (hcounted.full hready i)
  required hsince := hlater.required (hcounted.required hsince)
  draining hsince := hlater.draining (hcounted.draining hsince)

/-- What the others do meanwhile does not change what a probe knows. -/
theorem Life.Knows.later {probe : Probe} (hknows : s.Knows probe) (hlater : s.Later s') :
    s'.Knows probe := by
  cases probe with
  | idle => trivial
  | counted => exact Counted.later hknows hlater
  | required => exact ⟨hknows.1.later hlater, hknows.2⟩
  | bound =>
      obtain ⟨hcounted, hrequired, hready⟩ := hknows
      exact ⟨hcounted.later hlater, hrequired, fun htrue => hlater.wasSignalled (hready htrue)⟩
  | answered => exact hknows

theorem WorkerPhase.counted_le_one (phase : WorkerPhase) : phase.counted ≤ 1 := by
  cases phase <;> simp [WorkerPhase.counted]

theorem WorkerPhase.wasReady_of_counted {phase : WorkerPhase} (hcounted : phase.counted = 1) :
    phase.wasReady = true := by
  cases phase <;> first | rfl | cases hcounted

theorem Life.Sound.counted (hsound : s.Sound) :
    s.Counted ⟨s.recorder.tcpIngressRequired, s.recorder.draining⟩ s.recorder.readyCount where
  full hready i := by
    rw [hsound.count] at hready
    apply WorkerPhase.wasReady_of_counted
    apply Crew.weigh_eq_one WorkerPhase.counted_le_one _ i
    rwa [Fintype.card_fin]
  required := id
  draining := id

theorem handleReadyz_draining {ready total : Int} {tcpReq tcpRdy draining : Bool}
    (hdraining : draining = true) :
    (handleReadyz ready total tcpReq tcpRdy draining).code = 503 ∧
      (handleReadyz ready total tcpReq tcpRdy draining).status = .draining := by
  rw [handleReadyz, if_pos hdraining]
  exact ⟨rfl, rfl⟩

/-- Only one answer is a 200. -/
theorem handleReadyz_ok {ready total : Int} {tcpReq tcpRdy draining : Bool}
    (hcode : (handleReadyz ready total tcpReq tcpRdy draining).code = 200) :
    draining = false ∧ total ≤ ready ∧ 0 < total ∧ (tcpReq = true → tcpRdy = true) := by
  unfold handleReadyz at hcode
  split at hcode
  · cases hcode
  · split at hcode
    next hnot hready =>
      refine ⟨Bool.eq_false_iff.mpr hnot, hready.1, hready.2.1, fun hreq => ?_⟩
      exact hready.2.2.resolve_left (by simp [hreq])
    next => cases hcode

theorem Life.Sound.knows_next (hsound : s.Sound) {probe next : Probe} (hknows : s.Knows probe)
    (hnext : s.probeNext probe = some next) : s.Knows next := by
  cases probe with
  | idle =>
      cases hnext
      exact hsound.counted
  | counted =>
      cases hnext
      exact ⟨hknows, hknows.required⟩
  | required =>
      cases hnext
      exact ⟨hknows.1, hknows.2, hsound.signalled⟩
  | bound =>
      cases hnext
      exact fun hsince => handleReadyz_draining (hknows.1.draining hsince)
  | answered => cases hnext

/-- Only a step of its own is a read of a probe. -/
theorem LifeStep.probe_eq {p : Party workers lanes} (hstep : LifeStep tcp s p s')
    (hother : ∀ k, p ≠ .probe k) : s'.probe = s.probe := by
  cases hstep with
  | main hstep => cases hstep <;> rfl
  | worker _ hstep => cases hstep <;> rfl
  | listener _ hstep => cases hstep <;> rfl
  | lane => rfl
  | probe => exact absurd rfl (hother _)

theorem LifeStep.knows {p : Party workers lanes} (hstep : LifeStep tcp s p s')
    (hsound : s.Sound) (hknows : ∀ k, s.Knows (s.probe k)) (k : Nat) : s'.Knows (s'.probe k) := by
  have hlater := hstep.later hsound
  -- what a probe knew stays known; a read adds what is true at that moment
  by_cases hprobe : ∃ q, p = .probe q
  · obtain ⟨q, rfl⟩ := hprobe
    cases hstep with
    | probe _ hnext =>
        have hread := (hsound.knows_next (hknows q) hnext).later hlater
        exact Crew.forall_update (P := fun _ probe => Life.Knows _ probe)
          (fun k _ => (hknows k).later hlater) hread k
  · rw [hstep.probe_eq fun q hq => hprobe ⟨q, hq⟩]
    exact (hknows k).later hlater

theorem LifeRun.knows (hrun : LifeRun tcp Life.start s) (k : Nat) : s.Knows (s.probe k) := by
  induction hrun generalizing k with
  | refl => exact trivial
  | tail hrun hstep ih =>
      exact hstep.choose_spec.knows (LifeRun.sound hrun Life.sound_start) ih k

/-- Its loop has ended by an error that is taken for a close. -/
def Faulted (ended : Option SockErr) : Prop :=
  ∃ err, ended = some err ∧ err.isFault = true

theorem Faulted.of_open {ended : Option SockErr} {err : SockErr} {done : Bool}
    (hopen : done = false) (hended : ended = some err) (hleft : EndsIn done ended) :
    Faulted ended :=
  ⟨err, hended, (hleft err hended).resolve_left (by simp [hopen])⟩

/-- It has said that it is ready and has not left, unless by a fault. -/
def WorkerPhase.Stays (phase : WorkerPhase) : Prop :=
  phase = .ready ∨ phase = .looping ∨ Faulted phase.error

/-- It has bound its socket and has not left, unless by a fault. -/
def ListenerPhase.Stays (phase : ListenerPhase) : Prop :=
  phase = .signalled ∨ phase = .stranded ∨ phase = .accepting ∨ Faulted phase.error

theorem WorkerPhase.stays {phase : WorkerPhase} {done : Bool} (hopen : done = false)
    (hready : phase.wasReady = true) (hleft : EndsIn done phase.error) : phase.Stays := by
  cases phase with
  | ready => exact Or.inl rfl
  | looping => exact Or.inr (Or.inl rfl)
  | leaving | gone => exact Or.inr (Or.inr (Faulted.of_open hopen rfl hleft))
  | _ => cases hready

theorem ListenerPhase.stays {phase : ListenerPhase} {done : Bool} (hopen : done = false)
    (hsignalled : phase.wasSignalled = true) (hleft : EndsIn done phase.error) : phase.Stays := by
  cases phase with
  | signalled => exact Or.inl rfl
  | stranded => exact Or.inr (Or.inl rfl)
  | accepting => exact Or.inr (Or.inr (Or.inl rfl))
  | gone => exact Or.inr (Or.inr (Or.inr (Faulted.of_open hopen rfl hleft)))
  | _ => cases hsignalled

theorem MainPc.drained_of_closed {pc : MainPc} (hclosed : pc.closed = true) :
    pc.drained = true := by
  cases pc <;> first | rfl | cases hclosed

theorem Life.Sound.draining_of_done (hsound : s.Sound) (hdone : s.done = true) :
    s.recorder.draining = true := by
  rw [hsound.drained]
  exact MainPc.drained_of_closed (hsound.closed ▸ hdone)

/-- A 200 of `/readyz` is right when it is given, whatever happened between the reads it is
made from: every worker has said that it is ready and has not left, nothing has been closed,
and the TCP port is bound if the probe began after it was made a condition. -/
theorem ready_answer_holds (hrun : LifeRun tcp Life.start s) {p : Nat}
    (hstep : LifeStep tcp s (.probe p) s') {since : Since} {answer : ReadyAnswer}
    (hanswer : s'.probe p = .answered since answer) (hcode : answer.code = 200) :
    0 < workers ∧ (∀ i, (s.worker i).Stays) ∧ s.done = false ∧
      (since.required = true → s.listener.Stays) := by
  have hsound := hrun.sound Life.sound_start
  have hknows := hrun.knows p
  cases hstep with
  | @probe _ next _ hnext =>
      have hself : Function.update s.probe p next p = next := Function.update_self ..
      have hread := hnext.trans (congrArg some (hself.symm.trans hanswer))
      cases hprobe : s.probe p with
      | bound begun ready tcpReq tcpRdy =>
          rw [hprobe] at hread hknows
          cases hread
          obtain ⟨hdraining, hfull, htotal, htcp⟩ := handleReadyz_ok hcode
          obtain ⟨hcounted, hrequired, hready⟩ := hknows
          -- the last read found no drain, so nothing can have been closed before it
          have hopen : s.done = false := Bool.eq_false_iff.mpr fun hdone => by
            rw [hsound.draining_of_done hdone] at hdraining
            cases hdraining
          refine ⟨by omega, fun i => ?_, hopen, fun hsince => ?_⟩
          · exact WorkerPhase.stays hopen (hcounted.full hfull i) (hsound.left i)
          · exact ListenerPhase.stays hopen (hready (htcp (hrequired hsince)))
              hsound.listenerLeft
      | _ =>
          rw [hprobe] at hread
          cases hread

section Sample

/-! One worker and the TCP port come up, one step after the other. -/

def launchedLife : Life 1 0 := { Life.start.setWorker 0 .starting with main := .launching 1 }

def requiredLife : Life 1 0 :=
  { launchedLife with
    main := .listening
    recorder := { launchedLife.recorder with tcpIngressRequired := true } }

def listenedLife : Life 1 0 := { requiredLife with main := .laning 0, listener := .starting }

def workerUpLife : Life 1 0 :=
  { listenedLife.setWorker 0 .ready with
    recorder := { listenedLife.recorder with readyCount := listenedLife.recorder.readyCount + 1 } }

def upLife : Life 1 0 :=
  { workerUpLife with
    listener := .signalled
    recorder := { workerUpLife.recorder with tcpIngressReady := true } }

/-- A probe of a process makes its next read. -/
def probedLife (s : Life 1 0) : Life 1 0 :=
  { s with probe := Function.update s.probe 0 ((s.probeNext (s.probe 0)).getD .idle) }

theorem upLife_run : LifeRun true Life.start upLife := by
  have hlaunched : LifeRun true Life.start launchedLife :=
    .single ⟨_, .main (.startsWorker rfl Nat.one_pos)⟩
  have hrequiring : LifeRun true Life.start ({ launchedLife with main := .requiring } : Life 1 0) :=
    hlaunched.tail ⟨_, .main (.startedWorkers rfl)⟩
  have hrequired : LifeRun true Life.start requiredLife :=
    hrequiring.tail ⟨_, .main (.requiresTCP rfl)⟩
  have hlistened : LifeRun true Life.start listenedLife :=
    hrequired.tail ⟨_, .main (.startsListener rfl)⟩
  have hworkerUp : LifeRun true Life.start workerUpLife :=
    hlistened.tail ⟨_, .worker (by decide) (.readies rfl)⟩
  have hbound : LifeRun true Life.start ({ workerUpLife with listener := .bound } : Life 1 0) :=
    hworkerUp.tail ⟨_, .listener (by decide) (.binds rfl)⟩
  exact hbound.tail ⟨_, .listener (by decide) (.signals rfl)⟩

/-- The probe of a process that is up is answered 200. -/
theorem ready_answer_holds_up :
    LifeRun true Life.start (probedLife (probedLife (probedLife upLife))) ∧
      (probedLife (probedLife (probedLife (probedLife upLife)))).probe 0 =
        .answered ⟨true, false⟩ ⟨200, .ready, 1, 1, true, true⟩ ∧
      (∀ i, ((probedLife (probedLife (probedLife upLife))).worker i).Stays) ∧
      (probedLife (probedLife (probedLife upLife))).listener.Stays := by
  have hcounted : LifeRun true Life.start (probedLife upLife) :=
    upLife_run.tail ⟨_, .probe (by decide) rfl⟩
  have hrequired : LifeRun true Life.start (probedLife (probedLife upLife)) :=
    hcounted.tail ⟨_, .probe (by decide) rfl⟩
  have hread : LifeRun true Life.start (probedLife (probedLife (probedLife upLife))) :=
    hrequired.tail ⟨_, .probe (by decide) rfl⟩
  have hstep : LifeStep true (probedLife (probedLife (probedLife upLife))) (.probe 0)
      (probedLife (probedLife (probedLife (probedLife upLife)))) := .probe (by decide) rfl
  obtain ⟨-, hready, -, hbound⟩ := ready_answer_holds hread hstep rfl rfl
  exact ⟨hread, rfl, hready, hbound rfl⟩

end Sample

theorem WorkerPhase.tally_eq_zero {f : Fin workers → WorkerPhase} (hover : ∀ i, (f i).over = true) :
    Crew.tally WorkerPhase.counted f = 0 := by
  apply Finset.sum_eq_zero
  intro i _
  have hphase := hover i
  cases hf : f i <;> rw [hf] at hphase <;> first | rfl | cases hphase

/-- The drain is in order: nothing is closed before the process says that it is draining, no
loop ends before that unless by a fault, a probe that begins in the drain is turned away if
it is answered, and `main` returns when its wait group is at zero, and the count of the ready
with it. -/
theorem shutdown_in_order (hrun : LifeRun tcp Life.start s) :
    (s.done = true → s.recorder.draining = true) ∧
      (∀ i err, (s.worker i).error = some err → s.done = true ∨ err.isFault = true) ∧
      (∀ err, s.listener.error = some err → s.done = true ∨ err.isFault = true) ∧
      (∀ p since answer, s.probe p = .answered since answer → since.draining = true →
        answer.code = 503 ∧ answer.status = .draining) ∧
      (s.main = .exited → s.Joined ∧ s.recorder.readyCount = 0) := by
  have hsound := hrun.sound Life.sound_start
  refine ⟨hsound.draining_of_done, hsound.left, hsound.listenerLeft, ?_, fun hexited => ?_⟩
  · intro p since answer hanswered
    have hknows := hrun.knows p
    rwa [hanswered] at hknows
  · have hjoined := hsound.joined hexited
    refine ⟨hjoined, ?_⟩
    rw [hsound.count]
    exact WorkerPhase.tally_eq_zero hjoined.1

section Sample

/-! The same process is signalled, drains and returns. -/

def drainingLife : Life 1 0 :=
  { upLife with
    main := .sleeping
    listener := .accepting
    recorder := { upLife.recorder with draining := true } }

/-- Everything is closed, and the loops are still to find out. -/
def closedLife : Life 1 0 :=
  { drainingLife.setWorker 0 .looping with
    main := .joining
    done := true
    sockClosed := Function.update drainingLife.sockClosed 0 true
    lnClosed := true }

def leftLife : Life 1 0 :=
  { (closedLife.setWorker 0 (.leaving .closed)).setWorker 0 (.gone .closed) with
    recorder := { closedLife.recorder with readyCount := closedLife.recorder.readyCount - 1 } }

theorem closedLife_run : LifeRun true Life.start closedLife := by
  have haccepting : LifeRun true Life.start ({ upLife with listener := .accepting } : Life 1 0) :=
    upLife_run.tail ⟨_, .listener (by decide) (.accepts rfl)⟩
  have hwaiting : LifeRun true Life.start
      ({ upLife with main := .waiting, listener := .accepting } : Life 1 0) :=
    haccepting.tail ⟨_, .main (.notifies rfl)⟩
  have hsignalled : LifeRun true Life.start
      ({ upLife with main := .draining, listener := .accepting } : Life 1 0) :=
    hwaiting.tail ⟨_, .main (.signalled rfl)⟩
  have hdraining : LifeRun true Life.start drainingLife :=
    hsignalled.tail ⟨_, .main (.setsDraining rfl)⟩
  have hlooping : LifeRun true Life.start (drainingLife.setWorker 0 .looping) :=
    hdraining.tail ⟨_, .worker (by decide) (.enters rfl)⟩
  have hclosing : LifeRun true Life.start
      ({ drainingLife.setWorker 0 .looping with main := .closing } : Life 1 0) :=
    hlooping.tail ⟨_, .main (.sleeps rfl)⟩
  have hdone : LifeRun true Life.start
      ({ drainingLife.setWorker 0 .looping with main := .joining, done := true } : Life 1 0) :=
    hclosing.tail ⟨_, .main (.closesDone rfl)⟩
  have hsocket : LifeRun true Life.start ({ closedLife with lnClosed := false } : Life 1 0) :=
    hdone.tail ⟨_, .worker (by decide) (.closes (fun hunborn => by cases hunborn) rfl)⟩
  exact hsocket.tail ⟨_, .listener (by decide) (.closes (fun hunborn => by cases hunborn) rfl)⟩

theorem shutdown_in_order_signalled :
    LifeRun true Life.start
        ({ leftLife with main := .exited, listener := .gone .closed } : Life 1 0) ∧
      leftLife.recorder.readyCount = 0 := by
  have hleaving : LifeRun true Life.start (closedLife.setWorker 0 (.leaving .closed)) :=
    closedLife_run.tail ⟨_, .worker (by decide) (.leaves rfl (fun _ => rfl) rfl)⟩
  have hleft : LifeRun true Life.start leftLife :=
    hleaving.tail ⟨_, .worker (by decide) (.finishes rfl)⟩
  have hgone : LifeRun true Life.start ({ leftLife with listener := .gone .closed } : Life 1 0) :=
    hleft.tail ⟨_, .listener (by decide) (.leaves rfl (fun _ => rfl) rfl)⟩
  have hrun : LifeRun true Life.start
      ({ leftLife with main := .exited, listener := .gone .closed } : Life 1 0) :=
    hgone.tail ⟨_, .main (.joins rfl ⟨by decide, rfl, fun j => j.elim0⟩)⟩
  exact ⟨hrun, ((shutdown_in_order hrun).2.2.2.2 rfl).2⟩

end Sample

end ShardProxy
