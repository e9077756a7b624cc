/-
The tees of a TCP ingress.  Every connection copies its datagrams into tees over
sockets all connections share; a flush hands the copies to a sender goroutine of
the tee's own through a bounded queue.  `Run` waits for its connections and then
closes the shared sockets.  Nobody closes a tee: its sender outlives the
connection, and may still have the last batch when the socket is gone.
-/
import Mathlib.Logic.Relation
import ShardProxy.Emission

namespace ShardProxy

open ByteField

/-- The batches a tee holds for its sender. -/
def teeQueueDepth : Nat := 64

/-- The retry cache's tee, and the local listener's mirror. -/
inductive TeeKind where
  | retry
  | mirror
deriving DecidableEq

/-- The goroutine that sends a tee's batches. -/
inductive TeeSender where
  | absent
  | waiting
  | holding (batch : List Bytes)
  | ended

/-- A `retryTee` over a shared socket, with what has become of its datagrams: those
queued for the sender, those handed to the socket while it was open and those
after, and those dropped at the queue. -/
structure Tee where
  msgs : List Bytes
  started : Bool
  closed : Bool
  batches : List (List Bytes)
  sender : TeeSender
  accepted : List Bytes
  handed : List Bytes
  missed : List Bytes
  dropped : List Bytes

/-- `newSharedTee` -/
def Tee.new : Tee :=
  ⟨[], false, false, [], .absent, [], [], [], []⟩

/-- `append` -/
def Tee.append (t : Tee) (raw : Bytes) : Tee :=
  { t with msgs := t.msgs ++ [raw] }

/-- The first flush starts the sender. -/
def Tee.start (t : Tee) : Tee :=
  if t.started then t else { t with started := true, sender := .waiting }

/-- `flush` -/
def Tee.flush (t : Tee) : Tee :=
  if t.msgs = [] then t
  else if t.closed then { t with msgs := [], dropped := t.dropped ++ t.msgs }
  else if t.batches.length < teeQueueDepth then
    { t.start with
      msgs := []
      batches := t.batches ++ [t.msgs]
      accepted := t.accepted ++ t.msgs }
  else { t.start with msgs := [], dropped := t.dropped ++ t.msgs }

/-- The sender has written its batch, to a socket that is open or closed. -/
def Tee.wrote (t : Tee) (batch : List Bytes) (live : Bool) : Tee :=
  if live then { t with sender := .waiting, handed := t.handed ++ batch }
  else { t with sender := .waiting, missed := t.missed ++ batch }

/-- The batch a sender has taken off the queue and not written. -/
def TeeSender.inHand : TeeSender → List Bytes
  | .holding batch => batch
  | _ => []

/-- There is no sender goroutine. -/
def TeeSender.Gone (sender : TeeSender) : Prop :=
  sender = .absent ∨ sender = .ended

/-- Nothing is queued, and the sender has nothing in its hand. -/
def Tee.Drained (t : Tee) : Prop :=
  t.batches = [] ∧ ∀ batch, t.sender ≠ .holding batch

/-- Where a connection's goroutine is; `last` is the flush it ends with. -/
inductive ConnPos where
  | none
  | starting
  | running
  | flushing (kinds : List TeeKind) (last : Bool)
  | ended

/-- The connection is accepted and has not ended. -/
def ConnPos.active : ConnPos → Bool
  | .none => false
  | .ended => false
  | _ => true

/-- The connection's goroutine has drawn its slot. -/
def ConnPos.begun : ConnPos → Bool
  | .none => false
  | .starting => false
  | _ => true

/-- Where `Run` is. -/
inductive RunPhase where
  | accepting
  | waiting
  | closing (left : List (TeeKind × Nat))
  | returned

/-- The egress pool's size, at least one, and which of the shared sockets were dialed. -/
structure TeeConfig where
  poolN : Nat
  retry : Bool
  mirror : Bool
  hpool : 0 < poolN

/-- The tees of a connection, in the order `Flush` flushes them. -/
def TeeConfig.kinds (cfg : TeeConfig) : List TeeKind :=
  (if cfg.retry then [.retry] else []) ++ if cfg.mirror then [.mirror] else []

/-- The shared sockets, in the order `Run` closes them. -/
def TeeConfig.socks (cfg : TeeConfig) : List (TeeKind × Nat) :=
  cfg.kinds.flatMap fun kind => (List.range cfg.poolN).map fun slot => (kind, slot)

/-- `Run`, its connections' goroutines, their tees, and the sockets under them. -/
structure TeeIngress where
  done : Bool
  listening : Bool
  phase : RunPhase
  conns : Nat
  connSeq : Nat
  pos : Nat → ConnPos
  slot : Nat → Nat
  tees : Nat → TeeKind → Tee
  live : TeeKind × Nat → Bool

def TeeIngress.initial : TeeIngress where
  done := false
  listening := true
  phase := .accepting
  conns := 0
  connSeq := 0
  pos := fun _ => .none
  slot := fun _ => 0
  tees := fun _ _ => .new
  live := fun _ => true

def TeeIngress.setPos (s : TeeIngress) (c : Nat) (pos : ConnPos) : TeeIngress :=
  { s with pos := Function.update s.pos c pos }

def TeeIngress.setTee (s : TeeIngress) (c : Nat) (kind : TeeKind) (t : Tee) : TeeIngress :=
  { s with tees := Function.update s.tees c (Function.update (s.tees c) kind t) }

/-- The copies `enqueue` takes: what the cache can answer for goes to the retry
tee, data to the mirror. -/
def TeeConfig.copies (cfg : TeeConfig) (req : EnqueueReq) : TeeKind → Bool
  | .retry => cfg.retry && req.teeable
  | .mirror => cfg.mirror && req.ctrlLabel == ""

def TeeIngress.enqueue (s : TeeIngress) (cfg : TeeConfig) (c : Nat) (req : EnqueueReq) :
    TeeIngress :=
  { s with tees := Function.update s.tees c fun kind =>
      if cfg.copies req kind then (s.tees c kind).append req.raw else s.tees c kind }

/-- One step of one goroutine, where the connections have the datagrams of `traffic` to
put out. -/
inductive TeeStep (cfg : TeeConfig) (traffic : EnqueueReq → Prop) :
    TeeIngress → TeeIngress → Prop where
  /-- Somebody closes `done`. -/
  | shutdown (s : TeeIngress) : TeeStep cfg traffic s { s with done := true }
  | closeListener {s : TeeIngress} (hdone : s.done = true) :
      TeeStep cfg traffic s { s with listening := false }
  | accept {s : TeeIngress} (hphase : s.phase = .accepting) (hlistening : s.listening = true) :
      TeeStep cfg traffic s { s.setPos s.conns .starting with conns := s.conns + 1 }
  /-- `Accept` fails on the closed listener, and `Run` waits for its connections. -/
  | refuse {s : TeeIngress} (hphase : s.phase = .accepting) (hlistening : s.listening = false) :
      TeeStep cfg traffic s { s with phase := .waiting }
  | join {s : TeeIngress} (hphase : s.phase = .waiting)
      (hended : ∀ c < s.conns, s.pos c = .ended) :
      TeeStep cfg traffic s { s with phase := .closing cfg.socks }
  | closeSock {s : TeeIngress} {sock : TeeKind × Nat} {left : List (TeeKind × Nat)}
      (hphase : s.phase = .closing (sock :: left)) :
      TeeStep cfg traffic s
        { s with phase := .closing left, live := Function.update s.live sock false }
  | returned {s : TeeIngress} (hphase : s.phase = .closing []) :
      TeeStep cfg traffic s { s with phase := .returned }
  /-- A connection's goroutine draws its slot. -/
  | begin {s : TeeIngress} {c : Nat} (hpos : s.pos c = .starting) :
      TeeStep cfg traffic s { s.setPos c .running with
        slot := Function.update s.slot c (s.connSeq % cfg.poolN)
        connSeq := s.connSeq + 1 }
  | enqueue {s : TeeIngress} {c : Nat} {req : EnqueueReq} (hpos : s.pos c = .running)
      (hreq : traffic req) :
      TeeStep cfg traffic s (s.enqueue cfg c req)
  | flush {s : TeeIngress} {c : Nat} (hpos : s.pos c = .running) :
      TeeStep cfg traffic s (s.setPos c (.flushing cfg.kinds false))
  /-- The peer hangs up, or `done` closes the connection: one flush is left. -/
  | hangUp {s : TeeIngress} {c : Nat} (hpos : s.pos c = .running) :
      TeeStep cfg traffic s (s.setPos c (.flushing cfg.kinds true))
  | flushTee {s : TeeIngress} {c : Nat} {kind : TeeKind} {rest : List TeeKind} {last : Bool}
      (hpos : s.pos c = .flushing (kind :: rest) last) :
      TeeStep cfg traffic s ((s.setTee c kind (s.tees c kind).flush).setPos c (.flushing rest last))
  | flushed {s : TeeIngress} {c : Nat} (hpos : s.pos c = .flushing [] false) :
      TeeStep cfg traffic s (s.setPos c .running)
  /-- `connWG.Done` -/
  | ended {s : TeeIngress} {c : Nat} (hpos : s.pos c = .flushing [] true) :
      TeeStep cfg traffic s (s.setPos c .ended)
  | receive {s : TeeIngress} {c : Nat} {kind : TeeKind} {batch : List Bytes}
      {rest : List (List Bytes)} (hsender : (s.tees c kind).sender = .waiting)
      (hbatches : (s.tees c kind).batches = batch :: rest) :
      TeeStep cfg traffic s (s.setTee c kind
        { s.tees c kind with batches := rest, sender := .holding batch })
  | write {s : TeeIngress} {c : Nat} {kind : TeeKind} {batch : List Bytes}
      (hsender : (s.tees c kind).sender = .holding batch) :
      TeeStep cfg traffic s (s.setTee c kind
        ((s.tees c kind).wrote batch (s.live (kind, s.slot c))))
  /-- The sender's loop ends on a closed and empty queue. -/
  | leave {s : TeeIngress} {c : Nat} {kind : TeeKind}
      (hsender : (s.tees c kind).sender = .waiting) (hbatches : (s.tees c kind).batches = [])
      (hclosed : (s.tees c kind).closed = true) :
      TeeStep cfg traffic s (s.setTee c kind { s.tees c kind with sender := .ended })

/-- A run of the ingress, in any interleaving. -/
def TeeRun (cfg : TeeConfig) (traffic : EnqueueReq → Prop) : TeeIngress → TeeIngress → Prop :=
  Relation.ReflTransGen (TeeStep cfg traffic)

/-- What a tee's books say.  Every datagram queued was handed on, in order, or is
still here; and there is a sender once something was queued, since nobody closes the
tee. -/
structure Tee.Ledger (t : Tee) : Prop where
  balance : t.accepted = t.handed ++ t.missed ++ t.sender.inHand ++ t.batches.flatten
  unclosed : t.closed = false
  fresh : t.started = false → t.sender = .absent ∧ t.batches = [] ∧ t.accepted = []
  running : t.started = true → ¬ t.sender.Gone ∧ t.accepted ≠ []

section Books

theorem Tee.ledger_new : Tee.new.Ledger where
  balance := rfl
  unclosed := rfl
  fresh := fun _ => ⟨rfl, rfl, rfl⟩
  running := nofun

variable {t : Tee}

theorem Tee.Ledger.append (hledger : t.Ledger) (raw : Bytes) : (t.append raw).Ledger :=
  ⟨hledger.balance, hledger.unclosed, hledger.fresh, hledger.running⟩

/-- What a flush of some datagrams does to a tee nobody closed. -/
theorem Tee.flush_eq (hledger : t.Ledger) (hmsgs : t.msgs ≠ []) :
    t.flush = if t.batches.length < teeQueueDepth then
        { t.start with
          msgs := [], batches := t.batches ++ [t.msgs], accepted := t.accepted ++ t.msgs }
      else { t.start with msgs := [], dropped := t.dropped ++ t.msgs } := by
  simp only [Tee.flush, hmsgs, hledger.unclosed, Bool.false_eq_true, ↓reduceIte]

/-- Starting the sender changes nothing that is counted. -/
theorem Tee.Ledger.start (hledger : t.Ledger) :
    t.start.started = true ∧ ¬ t.start.sender.Gone ∧ t.start.sender.inHand = t.sender.inHand ∧
      t.start.handed = t.handed ∧ t.start.missed = t.missed ∧ t.start.batches = t.batches ∧
      t.start.accepted = t.accepted ∧ t.start.closed = t.closed := by
  cases hstarted : t.started with
  | true =>
      have hsame : t.start = t := if_pos hstarted
      rw [hsame]
      exact ⟨hstarted, (hledger.running hstarted).1, rfl, rfl, rfl, rfl, rfl, rfl⟩
  | false =>
      have hnew : t.start = { t with started := true, sender := .waiting } :=
        if_neg (by simp [hstarted])
      rw [hnew, (hledger.fresh hstarted).1]
      refine ⟨rfl, ?_, rfl, rfl, rfl, rfl, rfl, rfl⟩
      rintro (hgone | hgone) <;> cases hgone

theorem Tee.Ledger.flush (hledger : t.Ledger) : t.flush.Ledger := by
  by_cases hmsgs : t.msgs = []
  · rw [Tee.flush, if_pos hmsgs]
    exact hledger
  · obtain ⟨hstarted, hgone, hhand, hhanded, hmissed, hbatches, haccepted, hclosed⟩ :=
      hledger.start
    rw [Tee.flush_eq hledger hmsgs]
    split
    · refine ⟨?_, hclosed.trans hledger.unclosed, ?_, ?_⟩
      · simp only [hhanded, hmissed, hhand, List.flatten_append, List.flatten_cons,
          List.flatten_nil, List.append_nil]
        rw [hledger.balance, List.append_assoc _ t.batches.flatten]
      · intro hfresh
        exact absurd (hstarted.symm.trans hfresh) (by decide)
      · intro _
        exact ⟨hgone, fun hnil => hmsgs (List.append_eq_nil_iff.mp hnil).2⟩
    · rename_i hfull
      have hrunning : t.started = true := by
        by_contra hnot
        have hempty := (hledger.fresh (Bool.eq_false_of_not_eq_true hnot)).2.1
        rw [hempty] at hfull
        exact hfull (by decide)
      refine ⟨?_, hclosed.trans hledger.unclosed, ?_, ?_⟩
      · simp only [hhanded, hmissed, hhand, hbatches, haccepted]
        exact hledger.balance
      · intro hfresh
        exact absurd (hstarted.symm.trans hfresh) (by decide)
      · intro _
        simp only [haccepted]
        exact ⟨hgone, (hledger.running hrunning).2⟩

theorem Tee.Ledger.receive (hledger : t.Ledger) {batch : List Bytes} {rest : List (List Bytes)}
    (hsender : t.sender = .waiting) (hbatches : t.batches = batch :: rest) :
    Tee.Ledger { t with batches := rest, sender := .holding batch } := by
  have hbalance := hledger.balance
  simp only [hsender, hbatches, List.flatten_cons, TeeSender.inHand, List.append_nil] at hbalance
  rw [← List.append_assoc] at hbalance
  refine ⟨hbalance, hledger.unclosed, ?_, ?_⟩
  · intro hfresh
    cases hbatches.symm.trans (hledger.fresh hfresh).2.1
  · intro hstarted
    refine ⟨?_, (hledger.running hstarted).2⟩
    rintro (hgone | hgone) <;> cases hgone

theorem Tee.Ledger.wrote (hledger : t.Ledger) {batch : List Bytes}
    (hsender : t.sender = .holding batch) {live : Bool} (hmissed : live = true → t.missed = []) :
    (t.wrote batch live).Ledger := by
  have hbalance := hledger.balance
  rw [hsender, TeeSender.inHand] at hbalance
  have hstarted : t.started = true := by
    by_contra hnot
    cases hsender.symm.trans (hledger.fresh (Bool.eq_false_of_not_eq_true hnot)).1
  have haccepted := (hledger.running hstarted).2
  have hpresent : ¬ TeeSender.Gone .waiting := by
    rintro (hgone | hgone) <;> cases hgone
  cases live with
  | true =>
      refine ⟨?_, hledger.unclosed, ?_, fun _ => ⟨hpresent, haccepted⟩⟩
      · simp only [Tee.wrote, ↓reduceIte, TeeSender.inHand, hmissed rfl, List.append_nil]
          at hbalance ⊢
        exact hbalance
      · intro hfresh
        exact absurd (hstarted.symm.trans hfresh) (by decide)
  | false =>
      refine ⟨?_, hledger.unclosed, ?_, fun _ => ⟨hpresent, haccepted⟩⟩
      · simp only [Tee.wrote, Bool.false_eq_true, ↓reduceIte, TeeSender.inHand, List.append_nil]
        rw [hbalance, List.append_assoc t.handed]
      · intro hfresh
        exact absurd (hstarted.symm.trans hfresh) (by decide)

/-- A tee has no sender when nothing was ever queued, and only then. -/
theorem Tee.Ledger.gone_iff (hledger : t.Ledger) : t.sender.Gone ↔ t.accepted = [] := by
  cases hstarted : t.started with
  | true =>
      obtain ⟨hpresent, haccepted⟩ := hledger.running hstarted
      exact ⟨fun hgone => absurd hgone hpresent, fun hnil => absurd hnil haccepted⟩
  | false =>
      obtain ⟨habsent, _, haccepted⟩ := hledger.fresh hstarted
      exact ⟨fun _ => haccepted, fun _ => Or.inl habsent⟩

/-- A flush only adds to what was queued, and writes nothing. -/
theorem Tee.Ledger.of_flush (hledger : t.Ledger) :
    t.accepted <+: t.flush.accepted ∧ t.flush.missed = t.missed := by
  by_cases hmsgs : t.msgs = []
  · rw [Tee.flush, if_pos hmsgs]
    exact ⟨List.prefix_rfl, rfl⟩
  · obtain ⟨-, -, -, -, hmissed, -, haccepted, -⟩ := hledger.start
    rw [Tee.flush_eq hledger hmsgs]
    split
    · exact ⟨List.prefix_append _ _, hmissed⟩
    · exact ⟨haccepted ▸ List.prefix_rfl, hmissed⟩

end Books

section Moves

variable (cfg : TeeConfig) (traffic : EnqueueReq → Prop) (s : TeeIngress) (c : Nat)
  (kind : TeeKind)

/-- What a step may do to one tee. -/
inductive TeeMove : Tee → Prop where
  | same : TeeMove (s.tees c kind)
  | append {req : EnqueueReq} (hreq : traffic req) (hcopied : cfg.copies req kind = true) :
      TeeMove ((s.tees c kind).append req.raw)
  | flush : TeeMove (s.tees c kind).flush
  | receive {batch : List Bytes} {rest : List (List Bytes)}
      (hsender : (s.tees c kind).sender = .waiting)
      (hbatches : (s.tees c kind).batches = batch :: rest) :
      TeeMove { s.tees c kind with batches := rest, sender := .holding batch }
  | write {batch : List Bytes} (hsender : (s.tees c kind).sender = .holding batch) :
      TeeMove ((s.tees c kind).wrote batch (s.live (kind, s.slot c)))
  | leave (hclosed : (s.tees c kind).closed = true) :
      TeeMove { s.tees c kind with sender := .ended }

end Moves

section Steps

variable {cfg : TeeConfig} {traffic : EnqueueReq → Prop} {s s' : TeeIngress}

/-- A tee that is set is the one asked for, or another. -/
theorem TeeMove.of_setTee {c : Nat} {kind : TeeKind} {t : Tee}
    (hmove : TeeMove cfg traffic s c kind t)
    (other : Nat) (otherKind : TeeKind) :
    TeeMove cfg traffic s other otherKind ((s.setTee c kind t).tees other otherKind) := by
  by_cases hc : other = c
  · subst hc
    by_cases hkind : otherKind = kind
    · subst hkind
      simpa only [TeeIngress.setTee, Function.update_self] using hmove
    · simpa only [TeeIngress.setTee, Function.update_self, Function.update_of_ne hkind] using
        TeeMove.same
  · simpa only [TeeIngress.setTee, Function.update_of_ne hc] using TeeMove.same

theorem TeeStep.move (hstep : TeeStep cfg traffic s s') (c : Nat) (kind : TeeKind) :
    TeeMove cfg traffic s c kind (s'.tees c kind) := by
  cases hstep with
  | @enqueue other req hpos hreq =>
      by_cases hc : c = other
      · subst hc
        simp only [TeeIngress.enqueue, Function.update_self]
        split
        · rename_i hcopied
          exact .append hreq hcopied
        · exact .same
      · simpa only [TeeIngress.enqueue, Function.update_of_ne hc] using TeeMove.same
  | flushTee hpos => exact TeeMove.flush.of_setTee c kind
  | receive hsender hbatches => exact (TeeMove.receive hsender hbatches).of_setTee c kind
  | write hsender => exact (TeeMove.write hsender).of_setTee c kind
  | leave hsender hbatches hclosed => exact (TeeMove.leave hclosed).of_setTee c kind
  | _ => exact .same

/-- What holds of the goroutines between steps: connections come one after the
other and start with new tees, and a socket is closed only once all have ended. -/
structure TeeIngress.Control (s : TeeIngress) : Prop where
  unborn : ∀ c, s.conns ≤ c → s.pos c = .none
  fresh : ∀ c, (s.pos c).begun = false → ∀ kind, s.tees c kind = .new
  closed : ∀ sock, s.live sock = false → ∀ c < s.conns, s.pos c = .ended
  closing : ∀ left, s.phase = .closing left → ∀ c < s.conns, s.pos c = .ended
  accepting : s.phase = .accepting → ∀ sock, s.live sock = true

theorem control_initial : TeeIngress.initial.Control where
  unborn := fun _ _ => rfl
  fresh := fun _ _ _ => rfl
  closed := nofun
  closing := nofun
  accepting := fun _ _ => rfl

/-- While a connection is at work no socket is closed, nor about to be. -/
theorem TeeIngress.Control.active (hcontrol : s.Control) {c : Nat}
    (hactive : (s.pos c).active = true) :
    c < s.conns ∧ (∀ sock, s.live sock = true) ∧ ∀ left, s.phase ≠ .closing left := by
  have hgoing : s.pos c ≠ .ended := fun hended => by
    rw [hended] at hactive
    cases hactive
  have hlt : c < s.conns := by
    by_contra hge
    rw [hcontrol.unborn c (Nat.le_of_not_lt hge)] at hactive
    cases hactive
  refine ⟨hlt, ?_, ?_⟩
  · intro sock
    by_contra hdead
    exact hgoing (hcontrol.closed sock (Bool.eq_false_of_not_eq_true hdead) c hlt)
  · intro left hphase
    exact hgoing (hcontrol.closing left hphase c hlt)

/-- A connection at work goes on to another point. -/
theorem TeeIngress.Control.moved (hcontrol : s.Control) {c : Nat} {old pos : ConnPos}
    (hpos : s.pos c = old) (hactive : old.active = true)
    (hmoved : s'.pos = Function.update s.pos c pos) (hbegun : pos.begun = true)
    (hconns : s'.conns = s.conns) (hphase : s'.phase = s.phase) (hlive : s'.live = s.live)
    (htees : ∀ other, other ≠ c → s'.tees other = s.tees other) : s'.Control := by
  obtain ⟨hlt, hopen, hnot⟩ := hcontrol.active (hpos ▸ hactive)
  refine ⟨?_, ?_, ?_, ?_, ?_⟩
  · intro other hother
    have hne : other ≠ c := by omega
    rw [hmoved, Function.update_of_ne hne]
    exact hcontrol.unborn other (hconns ▸ hother)
  · intro other hother kind
    by_cases hc : other = c
    · rw [hmoved, hc, Function.update_self, hbegun] at hother
      cases hother
    · rw [hmoved, Function.update_of_ne hc] at hother
      rw [htees other hc]
      exact hcontrol.fresh other hother kind
  · intro sock hdead
    rw [hlive, hopen sock] at hdead
    cases hdead
  · intro left hclosing
    exact absurd (hphase.symm.trans hclosing) (hnot left)
  · intro _ sock
    rw [hlive]
    exact hopen sock

/-- A sender's step is on a tee that is not new. -/
theorem TeeIngress.Control.setTee (hcontrol : s.Control) {c : Nat} {kind : TeeKind}
    (hused : (s.tees c kind).sender ≠ .absent) (t : Tee) : (s.setTee c kind t).Control := by
  refine ⟨hcontrol.unborn, ?_, hcontrol.closed, hcontrol.closing, hcontrol.accepting⟩
  intro other hother otherKind
  have hnew := hcontrol.fresh other hother
  by_cases hc : other = c
  · subst hc
    exact absurd (congrArg Tee.sender (hnew kind)) hused
  · simp only [TeeIngress.setTee, Function.update_of_ne hc]
    exact hnew otherKind

theorem TeeIngress.Control.step (hcontrol : s.Control) (hstep : TeeStep cfg traffic s s') :
    s'.Control := by
  cases hstep with
  | shutdown =>
      exact ⟨hcontrol.unborn, hcontrol.fresh, hcontrol.closed, hcontrol.closing,
        hcontrol.accepting⟩
  | closeListener hdone =>
      exact ⟨hcontrol.unborn, hcontrol.fresh, hcontrol.closed, hcontrol.closing,
        hcontrol.accepting⟩
  | accept hphase hlistening =>
      have hopen := hcontrol.accepting hphase
      refine ⟨?_, ?_, ?_, ?_, fun _ => hopen⟩
      · intro c hc
        have hne : c ≠ s.conns := by
          rintro rfl
          exact Nat.not_succ_le_self _ hc
        simp only [TeeIngress.setPos, Function.update_of_ne hne]
        exact hcontrol.unborn c (Nat.le_of_succ_le hc)
      · intro c hc kind
        by_cases hnew : c = s.conns
        · subst hnew
          have hunborn : (s.pos s.conns).begun = false := by
            rw [hcontrol.unborn _ (Nat.le_refl _)]
            rfl
          exact hcontrol.fresh s.conns hunborn kind
        · simp only [TeeIngress.setPos, Function.update_of_ne hnew] at hc
          exact hcontrol.fresh c hc kind
      · intro sock hdead
        exact absurd ((hopen sock).symm.trans hdead) (by decide)
      · intro left hclosing
        cases hphase.symm.trans hclosing
  | refuse hphase hlistening =>
      exact ⟨hcontrol.unborn, hcontrol.fresh, hcontrol.closed, nofun, nofun⟩
  | join hphase hended =>
      exact ⟨hcontrol.unborn, hcontrol.fresh, hcontrol.closed, fun _ _ => hended, nofun⟩
  | closeSock hphase =>
      have hended := hcontrol.closing _ hphase
      exact ⟨hcontrol.unborn, hcontrol.fresh, fun _ _ => hended, fun _ _ => hended, nofun⟩
  | returned hphase =>
      exact ⟨hcontrol.unborn, hcontrol.fresh, hcontrol.closed, nofun, nofun⟩
  | begin hpos =>
      exact hcontrol.moved hpos rfl rfl rfl rfl rfl rfl fun _ _ => rfl
  | @enqueue c req hpos hreq =>
      have hsame : (s.enqueue cfg c req).pos = Function.update s.pos c .running := by
        rw [← hpos, Function.update_eq_self]
        rfl
      exact hcontrol.moved hpos rfl hsame rfl rfl rfl rfl
        fun _ hother => Function.update_of_ne hother _ _
  | flush hpos =>
      exact hcontrol.moved hpos rfl rfl rfl rfl rfl rfl fun _ _ => rfl
  | hangUp hpos =>
      exact hcontrol.moved hpos rfl rfl rfl rfl rfl rfl fun _ _ => rfl
  | flushTee hpos =>
      exact hcontrol.moved hpos rfl rfl rfl rfl rfl rfl
        fun _ hother => Function.update_of_ne hother _ _
  | flushed hpos =>
      exact hcontrol.moved hpos rfl rfl rfl rfl rfl rfl fun _ _ => rfl
  | ended hpos =>
      exact hcontrol.moved hpos rfl rfl rfl rfl rfl rfl fun _ _ => rfl
  | receive hsender hbatches => exact hcontrol.setTee (hsender ▸ nofun) _
  | write hsender => exact hcontrol.setTee (hsender ▸ nofun) _
  | leave hsender hbatches hclosed => exact hcontrol.setTee (hsender ▸ nofun) _

/-- A closed socket stays closed. -/
theorem TeeStep.live_of (hstep : TeeStep cfg traffic s s') {sock : TeeKind × Nat}
    (hlive : s'.live sock = true) : s.live sock = true := by
  cases hstep with
  | @closeSock closed left hphase =>
      by_cases hsock : sock = closed
      · subst hsock
        simp only [Function.update_self] at hlive
        cases hlive
      · simpa only [Function.update_of_ne hsock] using hlive
  | _ => exact hlive

/-- A connection has its slot from the step it draws it in. -/
theorem TeeStep.slot_of (hstep : TeeStep cfg traffic s s') (c : Nat) :
    s'.slot c = s.slot c ∨ s.pos c = .starting ∧ s'.tees c = s.tees c := by
  cases hstep with
  | @begin other hpos =>
      by_cases hc : c = other
      · subst hc
        exact Or.inr ⟨hpos, rfl⟩
      · exact Or.inl (Function.update_of_ne hc _ _)
  | _ => exact Or.inl rfl

theorem TeeMove.ledger {c : Nat} {kind : TeeKind} {t : Tee} (hmove : TeeMove cfg traffic s c kind t)
    (hledger : (s.tees c kind).Ledger)
    (hmissed : s.live (kind, s.slot c) = true → (s.tees c kind).missed = []) : t.Ledger := by
  cases hmove with
  | same => exact hledger
  | append => exact hledger.append _
  | flush => exact hledger.flush
  | receive hsender hbatches => exact hledger.receive hsender hbatches
  | write hsender => exact hledger.wrote hsender hmissed
  | leave hclosed => exact absurd (hledger.unclosed.symm.trans hclosed) (by decide)

/-- Nothing is written to a closed socket while the socket is open. -/
theorem TeeMove.missed_eq {c : Nat} {kind : TeeKind} {t : Tee}
    (hmove : TeeMove cfg traffic s c kind t)
    (hledger : (s.tees c kind).Ledger) (hlive : s.live (kind, s.slot c) = true) :
    t.missed = (s.tees c kind).missed := by
  cases hmove with
  | flush => exact hledger.of_flush.2
  | write hsender => rw [hlive, Tee.wrote, if_pos rfl]
  | _ => rfl

/-- What was queued stays queued or sent. -/
theorem TeeMove.accepted_grows {c : Nat} {kind : TeeKind} {t : Tee}
    (hmove : TeeMove cfg traffic s c kind t)
    (hledger : (s.tees c kind).Ledger) : (s.tees c kind).accepted <+: t.accepted := by
  cases hmove with
  | flush => exact hledger.of_flush.1
  | write hsender =>
      rw [Tee.wrote]
      split <;> exact List.prefix_rfl
  | _ => exact List.prefix_rfl

/-- Nothing is queued in a tee the traffic is not copied to. -/
theorem TeeMove.silent {c : Nat} {kind : TeeKind} {t : Tee}
    (hmove : TeeMove cfg traffic s c kind t)
    (hnone : ∀ req, traffic req → cfg.copies req kind = false)
    (hsilent : (s.tees c kind).msgs = [] ∧ (s.tees c kind).accepted = []) :
    t.msgs = [] ∧ t.accepted = [] := by
  cases hmove with
  | append hreq hcopied => exact absurd ((hnone _ hreq).symm.trans hcopied) (by decide)
  | flush =>
      rw [Tee.flush, if_pos hsilent.1]
      exact hsilent
  | write =>
      rw [Tee.wrote]
      split <;> exact hsilent
  | _ => exact hsilent

end Steps

/-- What holds in every reachable state. -/
structure TeeIngress.Booked (s : TeeIngress) : Prop where
  control : s.Control
  ledger : ∀ c kind, (s.tees c kind).Ledger
  missed : ∀ c kind, s.live (kind, s.slot c) = true → (s.tees c kind).missed = []

section Runs

variable {cfg : TeeConfig} {traffic : EnqueueReq → Prop} {s s' : TeeIngress}

theorem booked_initial : TeeIngress.initial.Booked :=
  ⟨control_initial, fun _ _ => Tee.ledger_new, fun _ _ _ => rfl⟩

theorem TeeIngress.Booked.step (hbooked : s.Booked) (hstep : TeeStep cfg traffic s s') :
    s'.Booked := by
  refine ⟨hbooked.control.step hstep, ?_, ?_⟩
  · intro c kind
    exact (hstep.move c kind).ledger (hbooked.ledger c kind) (hbooked.missed c kind)
  · intro c kind hlive
    rcases hstep.slot_of c with hslot | ⟨hstarting, htees⟩
    · rw [hslot] at hlive
      have hopen := hstep.live_of hlive
      rw [(hstep.move c kind).missed_eq (hbooked.ledger c kind) hopen]
      exact hbooked.missed c kind hopen
    · have hfresh : (s.pos c).begun = false := by rw [hstarting, ConnPos.begun]
      rw [htees, hbooked.control.fresh c hfresh kind]
      rfl

theorem TeeIngress.Booked.run (hbooked : s.Booked) (hrun : TeeRun cfg traffic s s') :
    s'.Booked := by
  induction hrun with
  | refl => exact hbooked
  | tail _ hstep ih => exact ih.step hstep

theorem TeeIngress.Booked.accepted_grows (hbooked : s.Booked) (hrun : TeeRun cfg traffic s s')
    (c : Nat) (kind : TeeKind) :
    (s.tees c kind).accepted <+: (s'.tees c kind).accepted := by
  induction hrun with
  | refl => exact List.prefix_rfl
  | tail hrun hstep ih =>
      exact ih.trans ((hstep.move c kind).accepted_grows ((hbooked.run hrun).ledger c kind))

/-- A connection's tee ends with a sender running unless nothing was ever queued. -/
theorem TeeIngress.Booked.gone_iff (hbooked : s.Booked) (c : Nat) (kind : TeeKind) :
    (∃ s', TeeRun cfg traffic s s' ∧ (s'.tees c kind).sender.Gone) ↔
      (s.tees c kind).accepted = [] := by
  constructor
  · rintro ⟨s', hrun, hgone⟩
    have hnil := ((hbooked.run hrun).ledger c kind).gone_iff.mp hgone
    exact List.prefix_nil.mp (hnil ▸ hbooked.accepted_grows hrun c kind)
  · intro hnil
    exact ⟨s, .refl, (hbooked.ledger c kind).gone_iff.mpr hnil⟩

end Runs

/-- Every tee over the socket has handed it all that was queued. -/
def TeeIngress.AllHanded (s : TeeIngress) (sock : TeeKind × Nat) : Prop :=
  ∀ c, s.slot c = sock.2 → (s.tees c sock.1).handed = (s.tees c sock.1).accepted

section Sockets

variable {cfg : TeeConfig} {traffic : EnqueueReq → Prop} {s s' : TeeIngress}

theorem TeeRun.silent {kind : TeeKind} (hnone : ∀ req, traffic req → cfg.copies req kind = false)
    (hrun : TeeRun cfg traffic .initial s) (c : Nat) :
    (s.tees c kind).msgs = [] ∧ (s.tees c kind).accepted = [] := by
  induction hrun with
  | refl => exact ⟨rfl, rfl⟩
  | tail _ hstep ih => exact (hstep.move c kind).silent hnone ih

/-- What was never queued was all handed on. -/
theorem Tee.Ledger.handed_of_silent {t : Tee} (hledger : t.Ledger) (hnone : t.accepted = []) :
    t.handed = t.accepted := by
  have hbalance := hledger.balance
  rw [hnone, List.append_assoc, List.append_assoc] at hbalance
  rw [hnone, (List.append_eq_nil_iff.mp hbalance.symm).1]

theorem TeeRun.live_of (hrun : TeeRun cfg traffic s s') {sock : TeeKind × Nat}
    (hlive : s'.live sock = true) : s.live sock = true := by
  induction hrun with
  | refl => exact hlive
  | tail _ hstep ih => exact ih (hstep.live_of hlive)

/-- With its connections over `Run` goes on to close the sockets, whatever the tees hold. -/
theorem TeeRun.comes_to_close (hphase : s.phase = .accepting)
    (hended : ∀ c < s.conns, s.pos c = .ended) :
    TeeRun cfg traffic s
      { s with done := true, listening := false, phase := .closing cfg.socks } :=
  Relation.ReflTransGen.single (TeeStep.shutdown s)
    |>.tail (.closeListener rfl)
    |>.tail (.refuse hphase rfl)
    |>.tail (.join rfl hended)

variable (cfg traffic) in
/-- And closes them one after the other. -/
theorem TeeRun.closes {left : List (TeeKind × Nat)} (hphase : s.phase = .closing left) :
    ∃ s', TeeRun cfg traffic s s' ∧ s'.phase = .closing [] ∧ s'.pos = s.pos ∧ s'.slot = s.slot ∧
      s'.tees = s.tees ∧ ∀ sock ∈ left, s'.live sock = false := by
  induction left generalizing s with
  | nil => exact ⟨s, .refl, hphase, rfl, rfl, rfl, fun _ hsock => by cases hsock⟩
  | cons first rest ih =>
      obtain ⟨s', hrun, hclosed, hpos, hslot, htees, hlive⟩ := ih (s :=
        { s with phase := .closing rest, live := Function.update s.live first false }) rfl
      refine ⟨s', .head (.closeSock hphase) hrun, hclosed, hpos, hslot, htees, ?_⟩
      intro sock hsock
      rcases List.mem_cons.mp hsock with rfl | hrest
      · refine Bool.eq_false_of_not_eq_true fun hopen => ?_
        have hbefore := TeeRun.live_of hrun hopen
        simp only [Function.update_self] at hbefore
        cases hbefore
      · exact hlive sock hrest

theorem TeeIngress.setTee_self (s : TeeIngress) (c : Nat) (kind : TeeKind) (t : Tee) :
    (s.setTee c kind t).tees c kind = t := by
  simp only [TeeIngress.setTee, Function.update_self]

/-- A waiting sender may take the next batch and write it. -/
theorem TeeRun.sends {c : Nat} {kind : TeeKind} {batch : List Bytes} {rest : List (List Bytes)}
    (hsender : (s.tees c kind).sender = .waiting)
    (hbatches : (s.tees c kind).batches = batch :: rest) :
    TeeRun cfg traffic s (s.setTee c kind (Tee.wrote
      { s.tees c kind with batches := rest, sender := .holding batch } batch
      (s.live (kind, s.slot c)))) := by
  have hholding := congrArg Tee.sender (s.setTee_self c kind
    { s.tees c kind with batches := rest, sender := .holding batch })
  have hsent : TeeRun cfg traffic s _ :=
    Relation.ReflTransGen.single (.receive hsender hbatches) |>.tail (.write hholding)
  simpa only [TeeIngress.setTee, Function.update_self, Function.update_idem] using hsent

/-- The tee after one datagram, which is queued. -/
def Tee.queued (raw : Bytes) : Tee :=
  { Tee.new with started := true, batches := [[raw]], sender := .waiting, accepted := [raw] }

variable (cfg traffic) in
/-- A connection flushes its tees one after the other. -/
theorem TeeRun.flushes {c : Nat} {kinds : List TeeKind} {last : Bool} (hkinds : kinds.Nodup)
    (hpos : s.pos c = .flushing kinds last) :
    ∃ s', TeeRun cfg traffic s s' ∧ s'.phase = s.phase ∧ s'.conns = s.conns ∧
      s'.slot = s.slot ∧ s'.pos c = .flushing [] last ∧
      ∀ kind, s'.tees c kind =
        if kind ∈ kinds then (s.tees c kind).flush else s.tees c kind := by
  induction kinds generalizing s with
  | nil => exact ⟨s, .refl, rfl, rfl, rfl, hpos, fun _ => (if_neg List.not_mem_nil).symm⟩
  | cons first rest ih =>
      obtain ⟨hfirst, hrest⟩ := List.nodup_cons.mp hkinds
      obtain ⟨s', hrun, hphase, hconns, hslot, hpos', htees⟩ := ih hrest
        (s := (s.setTee c first (s.tees c first).flush).setPos c (.flushing rest last))
        (Function.update_self c _ s.pos)
      refine ⟨s', .head (.flushTee hpos) hrun, hphase, hconns, hslot, hpos', fun kind => ?_⟩
      rw [htees kind]
      by_cases hkind : kind = first
      · rw [hkind, if_neg hfirst, if_pos List.mem_cons_self]
        exact s.setTee_self c first _
      · simp only [TeeIngress.setPos, TeeIngress.setTee, Function.update_self,
          Function.update_of_ne hkind, List.mem_cons, hkind, false_or]

theorem TeeConfig.kinds_nodup (cfg : TeeConfig) : cfg.kinds.Nodup := by
  rw [TeeConfig.kinds]
  cases cfg.retry <;> cases cfg.mirror <;> decide

theorem TeeConfig.mem_kinds {req : EnqueueReq} {kind : TeeKind}
    (hcopied : cfg.copies req kind = true) : kind ∈ cfg.kinds := by
  cases kind <;> simp_all [TeeConfig.copies, TeeConfig.kinds]

variable (cfg traffic) in
/-- A connection may put out one datagram and be over before anything is written. -/
theorem run_one_queued (req : EnqueueReq) (hreq : traffic req) (kind : TeeKind)
    (hcopied : cfg.copies req kind = true) : ∃ s, TeeRun cfg traffic .initial s ∧
      s.phase = .accepting ∧ (∀ c < s.conns, s.pos c = .ended) ∧ s.pos 0 = .ended ∧
      s.slot 0 = 0 ∧ s.tees 0 kind = .queued req.raw := by
  have hhangsUp : ∃ s, TeeRun cfg traffic .initial s ∧ s.phase = .accepting ∧ s.conns = 1 ∧
      s.slot 0 = 0 ∧ s.pos 0 = .flushing cfg.kinds true ∧
      s.tees 0 kind = if cfg.copies req kind then Tee.new.append req.raw else .new :=
    ⟨_, Relation.ReflTransGen.single (TeeStep.accept (s := .initial) rfl rfl)
      |>.tail (.begin (c := 0) rfl)
      |>.tail (.enqueue (c := 0) rfl hreq)
      |>.tail (.hangUp (c := 0) rfl), rfl, rfl, Nat.zero_mod _, rfl, rfl⟩
  obtain ⟨s, hrun, hphase, hconns, hslot, hpos, htee⟩ := hhangsUp
  obtain ⟨s', hflushes, hphase', hconns', hslot', hpos', htee'⟩ :=
    TeeRun.flushes cfg traffic cfg.kinds_nodup hpos
  refine ⟨s'.setPos 0 .ended, (hrun.trans hflushes).tail (.ended hpos'), hphase'.trans hphase, ?_,
    Function.update_self 0 _ s'.pos, (congrFun hslot' 0).trans hslot, ?_⟩
  · intro c hc
    have hfirst : c < 1 := hc.trans_eq (hconns'.trans hconns)
    obtain rfl := Nat.lt_one_iff.mp hfirst
    exact Function.update_self 0 _ s'.pos
  · refine (htee' kind).trans ?_
    rw [if_pos (TeeConfig.mem_kinds hcopied), htee, if_pos hcopied]
    rfl

variable (cfg traffic) in
/-- `Run` may then close the socket with the datagram still queued. -/
theorem run_one_closed (req : EnqueueReq) (hreq : traffic req) (kind : TeeKind)
    (hcopied : cfg.copies req kind = true) : ∃ s, TeeRun cfg traffic .initial s ∧
      s.phase = .closing [] ∧ s.live (kind, 0) = false ∧ s.pos 0 = .ended ∧ s.slot 0 = 0 ∧
      s.tees 0 kind = .queued req.raw := by
  obtain ⟨s, hrun, hphase, hover, hended, hslot, htee⟩ :=
    run_one_queued cfg traffic req hreq kind hcopied
  have hstops : TeeRun cfg traffic s _ := TeeRun.comes_to_close hphase hover
  obtain ⟨s', hcloses, hclosed, hpos, hslots, htees, hdead⟩ := TeeRun.closes cfg traffic
    (s := { s with done := true, listening := false, phase := .closing cfg.socks }) rfl
  have hsock : (kind, 0) ∈ cfg.socks :=
    List.mem_flatMap.mpr ⟨kind, TeeConfig.mem_kinds hcopied,
      List.mem_map.mpr ⟨0, List.mem_range.mpr cfg.hpool, rfl⟩⟩
  exact ⟨s', (hrun.trans hstops).trans hcloses, hclosed, hdead _ hsock,
    (congrFun hpos 0).trans hended, (congrFun hslots 0).trans hslot,
    (congrFun (congrFun htees 0) kind).trans htee⟩

end Sockets

/-- Whatever the interleaving, the tees of a kind have handed a closed socket all that was
queued if and only if the connections have nothing to put out that is copied to them.  A
connection's sender can end if and only if the connection queued nothing for it. -/
theorem tee_batches_handed (cfg : TeeConfig) (traffic : EnqueueReq → Prop) :
    (∀ kind, (∀ s slot, TeeRun cfg traffic .initial s → s.live (kind, slot) = false →
        s.AllHanded (kind, slot)) ↔ ∀ req, traffic req → cfg.copies req kind = false) ∧
      ∀ s c kind, TeeRun cfg traffic .initial s →
        ((∃ s', TeeRun cfg traffic s s' ∧ (s'.tees c kind).sender.Gone) ↔
          (s.tees c kind).accepted = []) := by
  refine ⟨fun kind => ⟨?_, ?_⟩, ?_⟩
  · intro hhanded req hreq
    refine Bool.eq_false_of_not_eq_true fun hcopied => ?_
    obtain ⟨s, hrun, -, hdead, -, hslot, htee⟩ :=
      run_one_closed cfg traffic req hreq kind hcopied
    have hall := hhanded s 0 hrun hdead 0 hslot
    rw [htee] at hall
    cases hall
  · intro hnone s slot hrun _ c _
    exact ((booked_initial.run hrun).ledger c kind).handed_of_silent (hrun.silent hnone c).2
  · intro s c kind hrun
    exact (booked_initial.run hrun).gone_iff c kind

/-- One pool slot, and the retry cache's tee only. -/
def oneRetry : TeeConfig := ⟨1, true, false, Nat.one_pos⟩

/-- A datagram the cache can answer for. -/
def sampleReq (raw : Bytes) : EnqueueReq := enqueueData raw ⟨⟨0, 0, 0⟩, 0⟩ 0

theorem tee_batches_handed_sample :
    (∀ s slot, TeeRun oneRetry (fun req => req.teeable = false) .initial s →
        s.live (.retry, slot) = false → s.AllHanded (.retry, slot)) ∧
      (¬ ∀ s slot, TeeRun oneRetry (fun _ => True) .initial s →
        s.live (.retry, slot) = false → s.AllHanded (.retry, slot)) ∧
      ∃ s, TeeRun oneRetry (fun _ => True) .initial s ∧ s.pos 0 = .ended ∧
        ¬ ∃ s', TeeRun oneRetry (fun _ => True) s s' ∧ (s'.tees 0 .retry).sender.Gone := by
  refine ⟨((tee_batches_handed _ _).1 .retry).mpr fun _ hreq => hreq, fun hall => ?_, ?_⟩
  · have hnone := ((tee_batches_handed _ _).1 .retry).mp hall (sampleReq [1]) trivial
    cases hnone
  · obtain ⟨s, hrun, -, -, hended, -, htee⟩ :=
      run_one_queued oneRetry (fun _ => True) (sampleReq [1]) trivial .retry rfl
    refine ⟨s, hrun, hended, fun hgone => ?_⟩
    have hnone := ((tee_batches_handed _ _).2 s 0 .retry hrun).mp hgone
    rw [htee] at hnone
    cases hnone

/-- `Run` returns with the datagram not handed to the open socket, and the sender
waits for a next batch for good. -/
theorem tee_batches_handed_fails : ∃ s, TeeRun oneRetry (fun _ => True) .initial s ∧
    s.phase = .returned ∧ s.live (.retry, 0) = false ∧ s.pos 0 = .ended ∧
    (s.tees 0 .retry).Drained ∧ (s.tees 0 .retry).accepted = [[1]] ∧
    (s.tees 0 .retry).handed = [] ∧
    ¬ ∃ s', TeeRun oneRetry (fun _ => True) s s' ∧ (s'.tees 0 .retry).sender.Gone := by
  obtain ⟨s, hrun, hphase, hdead, hended, hslot, htee⟩ :=
    run_one_closed oneRetry (fun _ => True) (sampleReq [1]) trivial .retry rfl
  have hlost := (hrun.tail (.returned hphase)).trans
    (TeeRun.sends (congrArg Tee.sender htee) (congrArg Tee.batches htee))
  refine ⟨_, hlost, rfl, hdead, hended, ?_⟩
  rw [(booked_initial.run hlost).gone_iff, TeeIngress.setTee_self, htee, hslot, hdead]
  exact ⟨⟨rfl, nofun⟩, rfl, rfl, nofun⟩

end ShardProxy
