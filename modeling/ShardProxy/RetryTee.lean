/-
One retry tee and everybody who touches it: the Egress goroutine that appends copies
and flushes them, the sender goroutine that writes them, calls to `wait` and to
`close`, and the socket that answers the writes.  Every access to the mutex, the
queue, a pool or the counter is a step of its own, and the steps interleave freely.
-/
import ShardProxy.Egress
import ShardProxy.TeeShutdown
import ShardProxy.Lib.FairRun

namespace ShardProxy

open ByteField FairRun

/-- The size of a pooled copy buffer; a larger datagram gets a buffer of its own. -/
def teeBufSize : Nat := 16 * 2 ^ 10

/-- A copy: the buffer it was taken into, and its length. -/
structure TeeMsg where
  buf : Nat
  len : Nat
deriving DecidableEq

/-- `teeBatch`: the copies, the pooled buffers among theirs, and the wait to answer. -/
structure TeeBatch where
  msgs : List TeeMsg
  bufs : List Nat
  ack : Option Nat
deriving DecidableEq

/-- Where `flush` is; it holds the mutex while `locked` and `offering`. -/
inductive FlushPos where
  | idle
  | locking (b : TeeBatch)
  | locked (b : TeeBatch)
  | offering (b : TeeBatch)
  | dropping (b : TeeBatch)
  | releasing (b : TeeBatch)

/-- Where `run` is.  While `writing` it is in the loop of `writeBatchAll` with an offset,
while `calling` inside a call of `WriteBatch`. -/
inductive RunPos where
  | absent
  | receiving
  | holding (b : TeeBatch)
  | writing (b : TeeBatch) (off : Nat)
  | calling (b : TeeBatch) (off : Nat)
  | wrote (b : TeeBatch) (sent : Nat) (err : Option WriteError)
  | releasing (b : TeeBatch)
  | ended

/-- Where a call of `wait` is; it holds the mutex while `locked` and `sending`. -/
inductive WaitPos where
  | none
  | locking
  | locked
  | sending
  | awaiting
  | returned

/-- Where a call of `close` is; it holds the mutex while `locked` and `unlocking`. -/
inductive ClosePos where
  | none
  | locking
  | locked
  | unlocking (started : Bool)
  | awaiting
  | returned

inductive ChanState where
  | unmade
  | opened
  | closed

/-- Who takes a step: whoever calls into the tee, the Egress goroutine inside a flush,
the sender, the socket, and the calls of `wait` and `close`. -/
inductive TeeActor where
  | caller
  | egress
  | sender
  | writer
  | waiter (i : Nat)
  | closer (i : Nat)
deriving DecidableEq

/-- A `retryTee` with the goroutines on it.  `fresh` is the next buffer never handed
out; `appended`, `written` and `closings` are what has happened so far, and `panicked`
that a channel was misused. -/
structure RetryTee where
  msgs : List TeeMsg
  bufs : List Nat
  flush : FlushPos
  mu : Option TeeActor
  started : Bool
  closed : Bool
  chan : ChanState
  batches : List TeeBatch
  run : RunPos
  waits : Nat → WaitPos
  acked : Nat → Bool
  closes : Nat → ClosePos
  failed : Nat
  heap : Nat → Bytes
  bufPool : List Nat
  fresh : Nat
  appended : List Bytes
  written : List Bytes
  closings : Nat
  panicked : Bool

/-- `Failed`: the counter is 64 bits wide. -/
def RetryTee.Failed (t : RetryTee) : UInt64 :=
  UInt64.ofNat t.failed

/-- `newTee` -/
def RetryTee.new : RetryTee where
  msgs := []
  bufs := []
  flush := .idle
  mu := none
  started := false
  closed := false
  chan := .unmade
  batches := []
  run := .absent
  waits := fun _ => .none
  acked := fun _ => false
  closes := fun _ => .none
  failed := 0
  heap := fun _ => []
  bufPool := []
  fresh := 0
  appended := []
  written := []
  closings := 0
  panicked := false

/-- What `bufPool.Get` returns, with the pool it leaves: any buffer of the pool, or one
that `New` makes. -/
inductive RetryTee.Draw (t : RetryTee) : Nat → List Nat → Nat → Prop where
  | pooled {before after : List Nat} {p : Nat} (hpool : t.bufPool = before ++ p :: after) :
      Draw t p (before ++ after) t.fresh
  | made : Draw t t.fresh t.bufPool (t.fresh + 1)

/-- The copy is taken into buffer `p`. -/
def RetryTee.copied (t : RetryTee) (raw : Bytes) (p : Nat) : RetryTee :=
  { t with
    heap := Function.update t.heap p (raw ++ (t.heap p).drop raw.length)
    msgs := t.msgs ++ [⟨p, raw.length⟩]
    appended := t.appended ++ [raw] }

/-- The bytes of a copy, as they are in its buffer. -/
def RetryTee.read (t : RetryTee) (m : TeeMsg) : Bytes :=
  (t.heap m.buf).take m.len

/-- `release`: the buffers go back to their pool, and a wait is answered. -/
def RetryTee.release (t : RetryTee) (b : TeeBatch) : RetryTee :=
  { t with
    bufPool := t.bufPool ++ b.bufs
    acked := match b.ack with
      | none => t.acked
      | some i => Function.update t.acked i true }

/-- What `WriteBatch` answered takes `writeBatchAll` on, or out. -/
def RetryTee.answered (t : RetryTee) (b : TeeBatch) (off : Nat) (count : Int)
    (err : Option WriteError) : RetryTee :=
  let took := clampSent count (b.msgs.length - off)
  { t with
    run := match err with
      | some err => .wrote b (off + took) (some err)
      | none =>
          if 0 < count then .writing b (off + took)
          else .wrote b (off + took) (some .noBatchProgress)
    written := t.written ++ ((b.msgs.drop off).take took).map t.read }

/-- `close` under the mutex. -/
def RetryTee.shut (t : RetryTee) : RetryTee :=
  if t.closed then t
  else if t.started then
    match t.chan with
    | .opened => { t with closed := true, chan := .closed, closings := t.closings + 1 }
    -- Closing a closed channel, or none, panics.
    | _ => { t with closed := true, closings := t.closings + 1, panicked := true }
  else { t with closed := true }

def RetryTee.setWait (t : RetryTee) (i : Nat) (pos : WaitPos) : RetryTee :=
  { t with waits := Function.update t.waits i pos }

def RetryTee.setClose (t : RetryTee) (i : Nat) (pos : ClosePos) : RetryTee :=
  { t with closes := Function.update t.closes i pos }

/-- One step of one actor. -/
inductive RetryTee.Step : TeeActor → RetryTee → RetryTee → Prop where
  | append {t : RetryTee} {raw : Bytes} {p fresh : Nat} {pool : List Nat}
      (hflush : t.flush = .idle) (hsmall : raw.length ≤ teeBufSize)
      (hdraw : t.Draw p pool fresh) :
      Step .caller t
        { t.copied raw p with bufs := t.bufs ++ [p], bufPool := pool, fresh := fresh }
  | appendLarge {t : RetryTee} {raw : Bytes} (hflush : t.flush = .idle)
      (hlarge : teeBufSize < raw.length) :
      Step .caller t { t.copied raw t.fresh with fresh := t.fresh + 1 }
  | flushNothing {t : RetryTee} (hflush : t.flush = .idle) (hmsgs : t.msgs = []) :
      Step .caller t t
  | flush {t : RetryTee} (hflush : t.flush = .idle) (hmsgs : t.msgs ≠ []) :
      Step .caller t
        { t with msgs := [], bufs := [], flush := .locking ⟨t.msgs, t.bufs, none⟩ }
  | callWait {t : RetryTee} {i : Nat} (hwait : t.waits i = .none) :
      Step .caller t (t.setWait i .locking)
  | callClose {t : RetryTee} {i : Nat} (hclose : t.closes i = .none) :
      Step .caller t (t.setClose i .locking)
  | flushLock {t : RetryTee} {b : TeeBatch} (hflush : t.flush = .locking b)
      (hmu : t.mu = none) :
      Step .egress t { t with flush := .locked b, mu := some .egress }
  | flushClosed {t : RetryTee} {b : TeeBatch} (hflush : t.flush = .locked b)
      (hclosed : t.closed = true) :
      Step .egress t { t with flush := .dropping b, mu := none }
  /-- The first flush starts the sender. -/
  | flushStart {t : RetryTee} {b : TeeBatch} (hflush : t.flush = .locked b)
      (hclosed : t.closed = false) (hstarted : t.started = false) :
      Step .egress t
        { t with flush := .offering b, started := true, chan := .opened, run := .receiving }
  | flushStarted {t : RetryTee} {b : TeeBatch} (hflush : t.flush = .locked b)
      (hclosed : t.closed = false) (hstarted : t.started = true) :
      Step .egress t { t with flush := .offering b }
  | flushSend {t : RetryTee} {b : TeeBatch} (hflush : t.flush = .offering b)
      (hchan : t.chan = .opened) (hroom : t.batches.length < teeQueueDepth) :
      Step .egress t { t with flush := .idle, mu := none, batches := t.batches ++ [b] }
  | flushPanic {t : RetryTee} {b : TeeBatch} (hflush : t.flush = .offering b)
      (hchan : t.chan = .closed) :
      Step .egress t { t with panicked := true }
  | flushFull {t : RetryTee} {b : TeeBatch} (hflush : t.flush = .offering b)
      (hfull : t.chan = .unmade ∨ t.chan = .opened ∧ teeQueueDepth ≤ t.batches.length) :
      Step .egress t { t with flush := .dropping b, mu := none }
  /-- `missed`, of a batch that was not sent -/
  | flushMissed {t : RetryTee} {b : TeeBatch} (hflush : t.flush = .dropping b) :
      Step .egress t { t with flush := .releasing b, failed := t.failed + b.msgs.length }
  | flushRelease {t : RetryTee} {b : TeeBatch} (hflush : t.flush = .releasing b) :
      Step .egress t { t.release b with flush := .idle }
  | receive {t : RetryTee} {b : TeeBatch} {rest : List TeeBatch} (hrun : t.run = .receiving)
      (hbatches : t.batches = b :: rest) :
      Step .sender t { t with run := .holding b, batches := rest }
  | leave {t : RetryTee} (hrun : t.run = .receiving) (hbatches : t.batches = [])
      (hchan : t.chan = .closed) :
      Step .sender t { t with run := .ended }
  | writeNothing {t : RetryTee} {b : TeeBatch} (hrun : t.run = .holding b)
      (hmsgs : b.msgs = []) :
      Step .sender t { t with run := .releasing b }
  | write {t : RetryTee} {b : TeeBatch} (hrun : t.run = .holding b) (hmsgs : b.msgs ≠ []) :
      Step .sender t { t with run := .writing b 0 }
  | call {t : RetryTee} {b : TeeBatch} {off : Nat} (hrun : t.run = .writing b off)
      (hleft : off < b.msgs.length) :
      Step .sender t { t with run := .calling b off }
  | answer {t : RetryTee} {b : TeeBatch} {off : Nat} (hrun : t.run = .calling b off)
      (count : Int) (err : Option WriteError) :
      Step .writer t (t.answered b off count err)
  | drained {t : RetryTee} {b : TeeBatch} {off : Nat} (hrun : t.run = .writing b off)
      (hleft : b.msgs.length ≤ off) :
      Step .sender t { t with run := .wrote b off none }
  | missed {t : RetryTee} {b : TeeBatch} {sent : Nat} {err : Option WriteError}
      (hrun : t.run = .wrote b sent err) (hshort : err ≠ none ∨ sent < b.msgs.length) :
      Step .sender t
        { t with run := .releasing b, failed := t.failed + (b.msgs.length - sent) }
  | sentAll {t : RetryTee} {b : TeeBatch} {sent : Nat} (hrun : t.run = .wrote b sent none)
      (hall : b.msgs.length ≤ sent) :
      Step .sender t { t with run := .releasing b }
  | release {t : RetryTee} {b : TeeBatch} (hrun : t.run = .releasing b) :
      Step .sender t { t.release b with run := .receiving }
  | waitLock {t : RetryTee} {i : Nat} (hwait : t.waits i = .locking) (hmu : t.mu = none) :
      Step (.waiter i) t { t.setWait i .locked with mu := some (.waiter i) }
  | waitSkip {t : RetryTee} {i : Nat} (hwait : t.waits i = .locked)
      (hskip : t.started = false ∨ t.closed = true) :
      Step (.waiter i) t { t.setWait i .returned with mu := none }
  | waitOffer {t : RetryTee} {i : Nat} (hwait : t.waits i = .locked)
      (hstarted : t.started = true) (hclosed : t.closed = false) :
      Step (.waiter i) t (t.setWait i .sending)
  /-- The send waits for room with the mutex held. -/
  | waitSend {t : RetryTee} {i : Nat} (hwait : t.waits i = .sending)
      (hchan : t.chan = .opened) (hroom : t.batches.length < teeQueueDepth) :
      Step (.waiter i) t
        { t.setWait i .awaiting with mu := none, batches := t.batches ++ [⟨[], [], some i⟩] }
  | waitPanic {t : RetryTee} {i : Nat} (hwait : t.waits i = .sending)
      (hchan : t.chan = .closed) :
      Step (.waiter i) t { t with panicked := true }
  | waitReturn {t : RetryTee} {i : Nat} (hwait : t.waits i = .awaiting)
      (hacked : t.acked i = true) :
      Step (.waiter i) t (t.setWait i .returned)
  | closeLock {t : RetryTee} {i : Nat} (hclose : t.closes i = .locking) (hmu : t.mu = none) :
      Step (.closer i) t { t.setClose i .locked with mu := some (.closer i) }
  | closeShut {t : RetryTee} {i : Nat} (hclose : t.closes i = .locked) :
      Step (.closer i) t (t.shut.setClose i (.unlocking t.started))
  | closeWait {t : RetryTee} {i : Nat} (hclose : t.closes i = .unlocking true) :
      Step (.closer i) t { t.setClose i .awaiting with mu := none }
  | closeSkip {t : RetryTee} {i : Nat} (hclose : t.closes i = .unlocking false) :
      Step (.closer i) t { t.setClose i .returned with mu := none }
  /-- `done` is closed once the sender has ended. -/
  | closeReturn {t : RetryTee} {i : Nat} (hclose : t.closes i = .awaiting)
      (hrun : t.run = .ended) :
      Step (.closer i) t (t.setClose i .returned)

inductive RetryTee.Reachable : RetryTee → Prop where
  | new : Reachable .new
  | step {a : TeeActor} {t t' : RetryTee} (hreach : Reachable t) (hstep : Step a t t') :
      Reachable t'

/-- The copies the sender has in hand and has neither written nor counted. -/
def RunPos.left : RunPos → List TeeMsg
  | .holding b => b.msgs
  | .writing b off => b.msgs.drop off
  | .calling b off => b.msgs.drop off
  | .wrote b sent _ => b.msgs.drop sent
  | _ => []

def RunPos.batch : RunPos → Option TeeBatch
  | .holding b => some b
  | .writing b _ => some b
  | .calling b _ => some b
  | .wrote b _ _ => some b
  | .releasing b => some b
  | _ => none

/-- The copies `flush` has in hand and has not counted. -/
def FlushPos.left : FlushPos → List TeeMsg
  | .locking b => b.msgs
  | .locked b => b.msgs
  | .offering b => b.msgs
  | .dropping b => b.msgs
  | _ => []

def FlushPos.batch : FlushPos → Option TeeBatch
  | .locking b => some b
  | .locked b => some b
  | .offering b => some b
  | .dropping b => some b
  | .releasing b => some b
  | .idle => none

/-- The copies on their way: with the sender, in the queue, with `flush`, and in the
batch being built. -/
def RetryTee.pending (t : RetryTee) : List TeeMsg :=
  t.run.left ++ t.batches.flatMap TeeBatch.msgs ++ t.flush.left ++ t.msgs

/-- The mutex is held by an actor, by where it is. -/
def RetryTee.Holds (t : RetryTee) : TeeActor → Prop
  | .egress => ∃ b, t.flush = .locked b ∨ t.flush = .offering b
  | .waiter i => t.waits i = .locked ∨ t.waits i = .sending
  | .closer i => t.closes i = .locked ∨ ∃ started, t.closes i = .unlocking started
  | _ => False

end ShardProxy
