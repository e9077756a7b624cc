/-
A TCP connection as it runs.  Its goroutine cuts what it has read into items,
hands them to the forwarder and counts them; what they put on the egress is
flushed when the count is full, before any read that waits for the peer, when a
lingering read times out, and when the goroutine ends.  The object formats'
reader is a parameter, so that the loops over records and bare transactions are
those over any reader; other lanes may change what they share with the
connection between any two of its calls.
-/
import ShardProxy.CoalescedBatch
import ShardProxy.TcpLanes

namespace ShardProxy

open ByteField Dispenser

/-- How many frames a connection may have in its egress before it is flushed. -/
def maxTCPBatch : Nat := 64

def groupSubtreeGroupAnnounce : UInt16 := 0xFFFC

/-- `EnqueueControl`: counted under its label and never teed. -/
def enqueueControl (raw : Bytes) (dst : UDPAddr) (label : String) : EnqueueReq :=
  ⟨raw, dst, 0, label, false, false⟩

/-- `ForwardControl` to the group of subtree group announces -/
def forwardControl (fw : Forwarder) (raw : Bytes) : Fw Unit :=
  enqueue [enqueueControl raw (fw.controlAddr groupSubtreeGroupAnnounce) "subtree_group_announce"]

/-- What `Next` of the object reader comes to with the bytes it has. -/
inductive ReaderMove (S : Type) where
  | read
  | object (object : Bytes) (next : S)
  | failed (error : ReadError)

/-- The object reader of another repository.  It starts on what is buffered,
reads when it wants to, and goes on with what a read gave it or without. -/
structure ObjReader where
  State : Type
  start : ObjClass → Int → Bytes → State
  next : State → ReaderMove State
  resume : State → Option Bytes → State

/-- Where the loop over a connection stands: before its grammar is known, in the
loop of a grammar, or behind a read that failed. -/
inductive LoopState (S : Type) where
  | detect (buffered : Bytes)
  | framed (buffered : Bytes)
  | beef (reader : S)
  | bare (reader : S)
  | failed (why : Close)

/-- What the loop does next. -/
inductive Move (S : Type) where
  | read
  | settle (next : LoopState S)
  | hand (item : Handed) (next : LoopState S)
  | close (why : Close)

/-- What the lanes of one forwarder share. -/
structure Shared where
  chains : Chains
  stores : Nat → Finset (String × Hash32)
  beefLimit : BEEFLimiter
  bridging : Option Engine

def FwState.shared (st : FwState) : Shared :=
  ⟨st.chains, st.stores, st.beefLimit, st.bridging⟩

def FwState.withShared (st : FwState) (shared : Shared) : FwState where
  chains := shared.chains
  stores := shared.stores
  beefLimit := shared.beefLimit
  bridging := shared.bridging
  queue := st.queue
  coal := st.coal

/-- A connection of the ingress with what surrounds it: the time of each of its
calls, and what the other lanes made of the shared state before it. -/
structure TCPIngress where
  env : Env
  fwd : Forwarder
  fmt : Objfmt
  reader : ObjReader
  cls : IngressClass
  coalesceLinger : Int
  remote : NetAddr
  clock : Nat → Time
  others : Nat → FwState → Shared

/-- What a read of the connection gives: bytes, a timeout of its deadline, or an
error. -/
inductive ReadResult where
  | data (chunk : { bytes : Bytes // bytes ≠ [] })
  | timeout
  | fail
deriving DecidableEq

/-- One item with the egress before and after it was handed on. -/
structure Handover where
  item : Handed
  before : FwState
  after : FwState

/-- The egress of a connection with what went through it. -/
structure ConnEgress where
  st : FwState
  calls : Nat
  handed : List Handover
  flushed : List (List EnqueueReq)

/-- What the goroutine is doing: running its loop, in a read with the linger
deadline, in a read with none, or nothing any more. -/
inductive ConnPhase (S : Type) where
  | running (loop : LoopState S)
  | lingering (loop : LoopState S)
  | blocked (loop : LoopState S)
  | ended (why : Close)

/-- A connection: what it is doing, the batcher's count, its egress, and what its
reads will give. -/
structure Conn (S : Type) where
  phase : ConnPhase S
  pending : Nat
  egr : ConnEgress
  script : List ReadResult

/-- The bytes at hand end before what the loop needs. -/
def Close.short : Close → Bool
  | .header | .announce | .headerExtension | .payload => true
  | _ => false

section Run

variable (ti : TCPIngress)

/-- The accumulate window, for an egress that coalesces. -/
def TCPIngress.linger : Int :=
  if ti.fwd.coalesce then ti.coalesceLinger else 0

/-- One move of `handleConn`, of `handleBEEFConn` or of `handleBareConn`. -/
def TCPIngress.look : LoopState ti.reader.State → Move ti.reader.State
  | .detect buffered =>
      if buffered.length < 4 then .read
      else if uint16At buffered 0 = beefRecordTag then
        let bound := beefRecordBound ti.fwd (some ti.remote)
        .settle (.beef (ti.reader.start .beef (if 0 < bound then bound else defaultMaxObject)
          buffered))
      else if uint32At buffered 0 ≠ magicBSV then
        .settle (.bare (ti.reader.start .tx defaultMaxObject buffered))
      else .settle (.framed buffered)
  | .framed buffered =>
      match framedNext ti.fmt ti.fwd ti.cls buffered with
      | .ok (item, rest) => .hand item (.framed rest)
      | .error why => if why.short then .read else .close why
  | .beef reader =>
      match ti.reader.next reader with
      | .read => .read
      | .object rec next => .hand (.dispatchClass rec ti.cls) (.beef next)
      | .failed error => .close (.read error)
  | .bare reader =>
      match ti.reader.next reader with
      | .read => .read
      | .object tx next => .hand (.dispatchBareTx tx) (.bare next)
      | .failed error => .close (.read error)
  | .failed why => .close why

/-- The loop after a read, or after its error. -/
def TCPIngress.resume : LoopState ti.reader.State → Option Bytes → LoopState ti.reader.State
  | .detect buffered, some chunk => .detect (buffered ++ chunk)
  | .detect _, none => .failed .detect
  | .framed buffered, some chunk => .framed (buffered ++ chunk)
  | .framed buffered, none =>
      match framedNext ti.fmt ti.fwd ti.cls buffered with
      | .ok _ => .failed .header
      | .error why => .failed why
  | .beef reader, result => .beef (ti.reader.resume reader result)
  | .bare reader, result => .bare (ti.reader.resume reader result)
  | .failed why, _ => .failed why

/-- Hand an item to the forwarder. -/
def TCPIngress.dispatch (now : Time) : Handed → Fw Unit
  | .dispatchClass raw cls => dispatchClass ti.env ti.fwd raw (some ti.remote) now cls
  | .forwardControl raw => forwardControl ti.fwd raw
  | .dispatchBareTx tx => dispatchBareTx ti.env ti.fwd tx (some ti.remote)

/-- The state a call finds. -/
def ConnEgress.enter (egr : ConnEgress) : FwState :=
  egr.st.withShared (ti.others egr.calls egr.st)

def ConnEgress.hand (egr : ConnEgress) (item : Handed) : ConnEgress :=
  let after := (ti.dispatch (ti.clock egr.calls) item (egr.enter ti)).2
  { egr with
    st := after
    calls := egr.calls + 1
    handed := egr.handed ++ [⟨item, egr.enter ti, after⟩] }

/-- `flushEgr`: bundle what waits, and flush the queue.  Whatever the sockets
answer, `Flush` and `FlushVia` take the whole queue. -/
def ConnEgress.flushEgr (egr : ConnEgress) : ConnEgress :=
  let bundled := (flushCoalescedFw ti.env ti.fwd (egr.enter ti)).2
  { egr with
    st := { bundled with queue := [] }
    calls := egr.calls + 1
    flushed := egr.flushed ++ [bundled.queue] }

variable {ti} in
/-- `tcpBatcher.flush` -/
def Conn.flush (c : Conn ti.reader.State) : Conn ti.reader.State :=
  if 0 < c.pending then { c with egr := c.egr.flushEgr ti, pending := 0 } else c

variable {ti} in
/-- `tcpBatcher.add` -/
def Conn.add (c : Conn ti.reader.State) : Conn ti.reader.State :=
  let c := { c with pending := c.pending + 1 }
  if maxTCPBatch ≤ c.pending then c.flush else c

variable {ti} in
/-- `flushingReader.Read` up to its first read of the connection -/
def Conn.read (c : Conn ti.reader.State) (loop : LoopState ti.reader.State) :
    Conn ti.reader.State :=
  if 0 < ti.linger ∧ 0 < c.pending then { c with phase := .lingering loop }
  else { c.flush with phase := .blocked loop }

variable {ti} in
/-- A read of the connection under way.  Without further results the peer closes
it. -/
def Conn.connRead (c : Conn ti.reader.State) (loop : LoopState ti.reader.State)
    (timedOut : List ReadResult → Conn ti.reader.State) : Conn ti.reader.State :=
  match c.script with
  | [] => { c with phase := .running (ti.resume loop none) }
  | .fail :: rest => { c with phase := .running (ti.resume loop none), script := rest }
  | .data chunk :: rest =>
      { c with phase := .running (ti.resume loop (some chunk.1)), script := rest }
  | .timeout :: rest => timedOut rest

variable {ti} in
/-- One step of the goroutine.  In a read without a deadline time passes, and
nothing else. -/
def Conn.step (c : Conn ti.reader.State) : Conn ti.reader.State :=
  match c.phase with
  | .running loop =>
      match ti.look loop with
      | .read => c.read loop
      | .settle next => { c with phase := .running next }
      | .hand item next =>
          { Conn.add { c with egr := c.egr.hand ti item } with phase := .running next }
      | .close why => { c with phase := .ended why, egr := c.egr.flushEgr ti }
  | .lingering loop =>
      c.connRead loop fun rest => { c.flush with phase := .blocked loop, script := rest }
  | .blocked loop => c.connRead loop fun rest => { c with script := rest }
  | .ended _ => c

/-- The egress `NewEgress` makes for a connection. -/
def TCPIngress.newEgress (shared : Shared) : FwState where
  chains := shared.chains
  stores := shared.stores
  beefLimit := shared.beefLimit
  bridging := shared.bridging
  queue := []
  coal := if ti.fwd.coalesce then some (newCoalBuffer ti.fwd.coalesceMaxMembers) else none

def TCPIngress.accept (shared : Shared) (script : List ReadResult) : Conn ti.reader.State where
  phase := .running (.detect [])
  pending := 0
  egr := ⟨ti.newEgress shared, 0, [], []⟩
  script := script

/-- The connection after a number of steps. -/
def TCPIngress.handleConn (shared : Shared) (script : List ReadResult) (n : Nat) :
    Conn ti.reader.State :=
  Conn.step^[n] (ti.accept shared script)

end Run

section Steps

variable {ti : TCPIngress}

def Conn.Reading (c : Conn ti.reader.State) (loop : LoopState ti.reader.State) : Prop :=
  c.phase = .lingering loop ∨ c.phase = .blocked loop

/-- All that a step can be. -/
inductive ConnStep (c : Conn ti.reader.State) : Conn ti.reader.State → Prop where
  | settles {loop next : LoopState ti.reader.State} (hphase : c.phase = .running loop)
      (hlook : ti.look loop = .settle next) : ConnStep c { c with phase := .running next }
  | hands {loop next : LoopState ti.reader.State} {item : Handed}
      (hphase : c.phase = .running loop) (hlook : ti.look loop = .hand item next) :
      ConnStep c { Conn.add { c with egr := c.egr.hand ti item } with phase := .running next }
  | lingers {loop : LoopState ti.reader.State} (hphase : c.phase = .running loop)
      (hlook : ti.look loop = .read) (hlinger : 0 < ti.linger) (hpending : 0 < c.pending) :
      ConnStep c { c with phase := .lingering loop }
  | blocks {loop : LoopState ti.reader.State} (hphase : c.phase = .running loop)
      (hlook : ti.look loop = .read) : ConnStep c { c.flush with phase := .blocked loop }
  | closes {loop : LoopState ti.reader.State} {why : Close} (hphase : c.phase = .running loop)
      (hlook : ti.look loop = .close why) :
      ConnStep c { c with phase := .ended why, egr := c.egr.flushEgr ti }
  | fails {loop : LoopState ti.reader.State} {rest : List ReadResult} (hread : c.Reading loop)
      (hscript : c.script = [] ∧ rest = [] ∨ c.script = .fail :: rest) :
      ConnStep c { c with phase := .running (ti.resume loop none), script := rest }
  | receives {loop : LoopState ti.reader.State} {chunk : { bytes : Bytes // bytes ≠ [] }}
      {rest : List ReadResult} (hread : c.Reading loop) (hscript : c.script = .data chunk :: rest) :
      ConnStep c { c with phase := .running (ti.resume loop (some chunk.1)), script := rest }
  | timesOut {loop : LoopState ti.reader.State} {rest : List ReadResult}
      (hphase : c.phase = .lingering loop) (hscript : c.script = .timeout :: rest) :
      ConnStep c { c.flush with phase := .blocked loop, script := rest }
  | waits {loop : LoopState ti.reader.State} {rest : List ReadResult}
      (hphase : c.phase = .blocked loop) (hscript : c.script = .timeout :: rest) :
      ConnStep c { c with script := rest }
  | ended {why : Close} (hphase : c.phase = .ended why) : ConnStep c c

theorem connStep_connRead {c : Conn ti.reader.State} {loop : LoopState ti.reader.State}
    (hread : c.Reading loop) {timedOut : List ReadResult → Conn ti.reader.State}
    (htimeout : ∀ rest, c.script = .timeout :: rest → ConnStep c (timedOut rest)) :
    ConnStep c (c.connRead loop timedOut) := by
  rw [Conn.connRead]
  split
  · rename_i hscript
    have hfails := ConnStep.fails hread (Or.inl ⟨hscript, rfl⟩)
    rw [← hscript] at hfails
    exact hfails
  · exact .fails hread (Or.inr ‹_›)
  · exact .receives hread ‹_›
  · exact htimeout _ ‹_›

theorem connStep_step (c : Conn ti.reader.State) : ConnStep c c.step := by
  rw [Conn.step]
  split
  · rename_i loop hphase
    split
    · rename_i hlook
      rw [Conn.read]
      split
      · exact .lingers hphase hlook (And.left ‹_›) (And.right ‹_›)
      · exact .blocks hphase hlook
    · exact .settles hphase ‹_›
    · exact .hands hphase ‹_›
    · exact .closes hphase ‹_›
  · rename_i loop hphase
    exact connStep_connRead (Or.inl hphase) fun rest hscript => .timesOut hphase hscript
  · rename_i loop hphase
    exact connStep_connRead (Or.inr hphase) fun rest hscript => .waits hphase hscript
  · exact .ended ‹_›

/-- What holds of an accepted connection and is kept by every step holds
throughout. -/
theorem handleConn_induction {P : Conn ti.reader.State → Prop} {shared : Shared}
    {script : List ReadResult} (haccept : P (ti.accept shared script))
    (hstep : ∀ c next, P c → ConnStep c next → P next) (n : Nat) :
    P (ti.handleConn shared script n) := by
  induction n with
  | zero => exact haccept
  | succ n ih =>
      rw [TCPIngress.handleConn, Function.iterate_succ_apply']
      exact hstep _ _ ih (connStep_step _)

end Steps

end ShardProxy
