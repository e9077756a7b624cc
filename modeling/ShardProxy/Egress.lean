/-
The reliable egress.  `enqueue` puts a datagram on the queue of every target,
`flushReliable` drains a queue through the target's writer with a bounded number
of retries, and `Flush` drains them all and gives the pooled buffers back.  With
a sender the same batch is written by another goroutine, one target at a time.
-/
import Mathlib.Data.List.FinRange
import ShardProxy.Emission
import ShardProxy.Lib.Handoff

namespace ShardProxy

open ByteField Handoff

/-- Indices from here on are not cached. -/
def maxGroupCache : Nat := 2 ^ 13

def maxReliableRetries : Nat := 50

/-- A destination with the interface a target sends from. -/
structure MessageAddr where
  ip : GroupAddr
  port : Nat
  zone : String
deriving DecidableEq

/-- One datagram as it is handed to `WriteBatch`. -/
structure Message where
  raw : Bytes
  addr : MessageAddr
deriving DecidableEq

/-- `msgMeta`: what is counted once a datagram is written. -/
structure MsgMeta where
  groupIdx : UInt32
  size : Nat
  workerID : Int
  ctrlLabel : String
  teeable : Bool
deriving DecidableEq

/-- What a write may fail with; `noBatchProgress` stands in for no progress and no
error. -/
inductive WriteError where
  | noBatchProgress
  | enobufs
  | eagain
  | ewouldblock
  | eintr
  | other (text : String)
deriving DecidableEq

def isTransientSendErr : WriteError → Bool
  | .enobufs => true
  | .eagain => true
  | .ewouldblock => true
  | .eintr => true
  | _ => false

/-- A target's socket: what `WriteBatch` answers, by the calls made before. -/
abbrev BatchWriter : Type := List (List Message) → List Message → Int × Option WriteError

/-- A queue drained as far as it went: the calls made, how many datagrams were
taken, and the error that stopped it. -/
structure Drained where
  calls : List (List Message)
  sent : Nat
  err : Option WriteError

/-- How many datagrams a writer took: none for a negative count, and no more than
it was handed. -/
def clampSent (count : Int) (handed : Nat) : Nat :=
  if 0 < count then min count.toNat handed else 0

theorem clampSent_pos {count : Int} (hcount : 0 < count) {handed : Nat} (hhanded : 0 < handed) :
    0 < clampSent count handed := by
  rw [clampSent, if_pos hcount]
  omega

/-- `writeBatchAll`: submit what is left until all is taken, an error comes back,
or nothing moves. -/
def writeBatchAll (w : BatchWriter) (past : List (List Message)) (ms : List Message) : Drained :=
  if _hms : ms = [] then ⟨[], 0, none⟩
  else
    let answer := w past ms
    let took := clampSent answer.1 ms.length
    match answer.2 with
    | some err => ⟨[ms], took, some err⟩
    | none =>
        if _hstuck : answer.1 ≤ 0 then ⟨[ms], 0, some .noBatchProgress⟩
        else
          let rest := writeBatchAll w (past ++ [ms]) (ms.drop took)
          ⟨ms :: rest.calls, took + rest.sent, rest.err⟩
termination_by ms.length
decreasing_by
  have hlength := List.length_pos_iff.mpr _hms
  have htook : 0 < clampSent (w past ms).1 ms.length :=
    clampSent_pos (Int.lt_of_not_ge _hstuck) hlength
  rw [List.length_drop]
  omega

/-- An error a retry will not help with. -/
def isHardSendErr : Option WriteError → Bool
  | none => false
  | some err => err ≠ .noBatchProgress ∧ isTransientSendErr err = false

/-- The retries spent without progress, before the next one. -/
def retriesSpent (sent attempts : Nat) : Nat :=
  if 0 < sent then 0 else attempts

/-- The loop of `flushReliable` from some point on: progress resets the retries,
and a hard error or too many retries give up what is left. -/
def flushLoop (w : BatchWriter) (past : List (List Message)) (ms : List Message)
    (attempts : Nat) : Drained :=
  if _hms : ms = [] then ⟨[], 0, none⟩
  else
    let tried := writeBatchAll w past ms
    let spent := retriesSpent tried.sent attempts
    if 0 < tried.sent ∧ ms.drop tried.sent = [] then ⟨tried.calls, tried.sent, none⟩
    else if isHardSendErr tried.err then ⟨tried.calls, tried.sent, tried.err⟩
    else if _hretries : maxReliableRetries ≤ spent then
      ⟨tried.calls, tried.sent, some (tried.err.getD .noBatchProgress)⟩
    else
      let rest := flushLoop w (past ++ tried.calls) (ms.drop tried.sent) (spent + 1)
      ⟨tried.calls ++ rest.calls, tried.sent + rest.sent, rest.err⟩
termination_by (ms.length, maxReliableRetries - attempts)
decreasing_by
  have hlength := List.length_pos_iff.mpr _hms
  rcases Nat.eq_zero_or_pos (writeBatchAll w past ms).sent with hnone | hsent
  · have hspent : spent = attempts := by
      simp only [spent, tried, retriesSpent, hnone, Nat.lt_irrefl, ↓reduceIte]
    rw [hspent] at _hretries
    rw [hnone, List.drop_zero]
    apply Prod.Lex.right
    simp only [retriesSpent, Nat.lt_irrefl, ↓reduceIte]
    omega
  · apply Prod.Lex.left
    rw [List.length_drop]
    omega

def flushReliable (w : BatchWriter) (past : List (List Message)) (ms : List Message) : Drained :=
  flushLoop w past ms 0

theorem flushReliable_first (w : BatchWriter) (past : List (List Message)) {ms : List Message}
    (hms : ms ≠ []) : ms ∈ (flushReliable w past ms).calls := by
  have hall : ms ∈ (writeBatchAll w past ms).calls := by
    unfold writeBatchAll
    rw [dif_neg hms]
    dsimp only
    split
    · exact List.mem_cons_self
    · split
      · exact List.mem_cons_self
      · exact List.mem_cons_self
  rw [flushReliable]
  unfold flushLoop
  rw [dif_neg hms]
  dsimp only
  split_ifs
  · exact hall
  · exact hall
  · exact hall
  · exact List.mem_append_left _ hall

/-- `egressBatch`, and what an egress queues between flushes: a queue a target,
what is counted, and the pooled buffers behind the datagrams. -/
structure Batch (n : Nat) where
  msgs : Fin n → List Message
  counted : List MsgMeta
  pooled : List Nat

def Batch.blank (n : Nat) : Batch n :=
  ⟨fun _ => [], [], []⟩

/-- The destinations an egress has built, by target and group. -/
def AddrCache (n : Nat) : Type := Fin n → UInt32 → Option MessageAddr

/-- A datagram to queue, the worker it is counted for, and the buffer behind it where it is
pooled. -/
structure EgressItem where
  req : EnqueueReq
  workerID : Int
  buffer : Nat

/-- What an egress does to the outside: calls to a target's writer, the count that
follows the last of them, and buffers put back into the pool. -/
inductive EgressEvent (n : Nat) where
  | call (target : Fin n) (ms : List Message)
  | wrote (target : Fin n) (sent : Nat) (err : Option WriteError) (counted : List MsgMeta)
  | put (buffer : Nat)

section Queue

variable {n : Nat} (zones : Fin n → String) (writers : Fin n → BatchWriter)

/-- `enqueue`.  A data frame's destination is the one first built for its target
and group. -/
def egressEnqueue (item : EgressItem) (cache : AddrCache n) (b : Batch n) :
    AddrCache n × Batch n :=
  let req := item.req
  let fresh (i : Fin n) : MessageAddr := ⟨req.dst.ip, req.dst.port, zones i⟩
  let cacheable := req.ctrlLabel = "" ∧ req.groupIdx.toNat < maxGroupCache
  let addr (i : Fin n) : MessageAddr :=
    if cacheable then (cache i req.groupIdx).getD (fresh i) else fresh i
  let cache : AddrCache n :=
    if cacheable then fun i => Function.update (cache i) req.groupIdx (some (addr i)) else cache
  (cache,
    { msgs := fun i => b.msgs i ++ [⟨req.raw, addr i⟩]
      counted := b.counted ++
        [⟨req.groupIdx, req.raw.length, item.workerID, req.ctrlLabel, req.teeable⟩]
      pooled := if req.pooled then b.pooled ++ [item.buffer] else b.pooled })

def callsTo (i : Fin n) (out : List (EgressEvent n)) : List (List Message) :=
  out.filterMap fun event =>
    match event with
    | .call target ms => if target = i then some ms else none
    | _ => none

def putsOf (out : List (EgressEvent n)) : List Nat :=
  out.filterMap fun event =>
    match event with
    | .put buffer => some buffer
    | _ => none

/-- What writing a target's queue does. -/
def writeTarget (i : Fin n) (ms : List Message) (counted : List MsgMeta)
    (out : List (EgressEvent n)) : List (EgressEvent n) :=
  if ms = [] then []
  else
    let drained := flushReliable (writers i) (callsTo i out) ms
    drained.calls.map (.call i) ++ [.wrote i drained.sent drained.err counted]

/-- What is out once some targets of a batch are written, one after the other. -/
def writeTargets (b : Batch n) (targets : List (Fin n)) (out : List (EgressEvent n)) :
    List (EgressEvent n) :=
  targets.foldl (fun out i => out ++ writeTarget writers i (b.msgs i) b.counted out) out

/-- What is out once a batch is written and its buffers are put back. -/
def flushOut (b : Batch n) (out : List (EgressEvent n)) : List (EgressEvent n) :=
  writeTargets writers b (List.finRange n) out ++ b.pooled.map .put

/-- A reliable egress without a sender. -/
structure Egress (n : Nat) where
  cache : AddrCache n
  queue : Batch n
  out : List (EgressEvent n)

/-- `enqueue`, and `Flush` on the goroutine that calls it. -/
def Egress.step (e : Egress n) : Op EgressItem → Egress n
  | .load item =>
      let (cache, queue) := egressEnqueue zones item e.cache e.queue
      { e with cache := cache, queue := queue }
  | .flush => { e with queue := .blank n, out := flushOut writers e.queue e.out }

def Egress.new (n : Nat) : Egress n :=
  ⟨fun _ _ => none, .blank n, []⟩

def Egress.run (e : Egress n) (script : List (Op EgressItem)) : Egress n :=
  script.foldl (Egress.step zones writers) e

/-- Where the sender is in a batch: at a target, at a pooled buffer, or through. -/
inductive SenderPos where
  | writing (i : Nat)
  | putting (j : Nat)
  | through

/-- One step of `sender` on the batch it has. -/
def senderWork : SenderPos → Batch n → List (EgressEvent n) →
    Option (SenderPos × Batch n × List (EgressEvent n))
  | .writing i, b, out =>
      if hi : i < n then
        some (.writing (i + 1), { b with msgs := Function.update b.msgs ⟨i, hi⟩ [] },
          writeTarget writers ⟨i, hi⟩ (b.msgs ⟨i, hi⟩) b.counted out)
      else some (.putting 0, b, [])
  | .putting j, b, _ =>
      match b.pooled[j]? with
      | some buffer => some (.putting (j + 1), b, [.put buffer])
      | none => some (.through, { b with pooled := [], counted := [] }, [])
  | .through, _, _ => none

/-- `enqueue`, `flushToSender` and `sender` on their batches: a flush hands over
where something is counted. -/
def senderRing : Ring EgressItem (AddrCache n) (Batch n) SenderPos (EgressEvent n) where
  load := egressEnqueue zones
  ready b := !b.counted.isEmpty
  blank := .blank n
  start := .writing 0
  work := senderWork writers

/-- The batches in flight that `StartSender` makes room for. -/
def senderDepth (depth : Int) : Nat :=
  if depth < 1 then 1 else depth.toNat

/-- An egress after `StartSender`, with a script ahead that `StopSender` ends. -/
def startSender (depth : Int) (script : List (Op EgressItem)) :
    Sys EgressItem (AddrCache n) (Batch n) SenderPos (EgressEvent n) :=
  Sys.initial (senderRing zones writers) (senderDepth depth) (fun _ _ => none) script

end Queue

end ShardProxy
