/-
The push lanes.  A lane of one class reads objects off a stream, makes each a frame and
flushes after every one.  Its flush does not bundle what waits, as that of the TCP lane does;
nothing can wait, because the egress of a push lane is made for batches of one and so has no
coalescing buffer.
-/
import ShardProxy.StreamMemory

namespace ShardProxy

open ByteField SliceHeap Stateful

/-- A push lane, and what goes on around one of its connections. -/
structure ObjectIngress where
  env : Env
  fmt : Objfmt
  fwd : Forwarder
  cls : ObjClass
  maxObject : Int
  remote : NetAddr
  clock : Nat → Time
  others : Nat → FwState → Shared

section Run

variable (oi : ObjectIngress)

/-- The batch a push lane has its egress made for. -/
def objectBatchHint : Nat := 1

/-- The egress `NewEgress` makes for a connection; it coalesces larger batches only. -/
def ObjectIngress.newEgress (shared : Shared) : FwState where
  chains := shared.chains
  stores := shared.stores
  beefLimit := shared.beefLimit
  bridging := shared.bridging
  queue := []
  coal := if oi.fwd.coalesce ∧ 1 < objectBatchHint then
      some (newCoalBuffer oi.fwd.coalesceMaxMembers)
    else none

/-- The lane hands on frames and records only. -/
def ObjectIngress.dispatch (now : Time) (item : Handed) : Fw Unit :=
  match item with
  | .dispatchClass raw cls => dispatchClass oi.env oi.fwd raw (some oi.remote) now cls
  | _ => pure ()

/-- The state a call finds. -/
def ObjectIngress.enter (egr : ConnEgress) : FwState :=
  egr.st.withShared (oi.others egr.calls egr.st)

def ObjectIngress.hand (egr : ConnEgress) (item : Handed) : ConnEgress :=
  let after := (oi.dispatch (oi.clock egr.calls) item (oi.enter egr)).2
  { egr with
    st := after
    calls := egr.calls + 1
    handed := egr.handed ++ [⟨item, oi.enter egr, after⟩] }

/-- `flushEgr` of a push lane: the queue, and nothing else. -/
def ObjectIngress.flushEgr (egr : ConnEgress) : ConnEgress :=
  { egr with
    st := { oi.enter egr with queue := [] }
    calls := egr.calls + 1
    flushed := egr.flushed ++ [(oi.enter egr).queue] }

/-- The items a stream is cut into. -/
def ObjectIngress.items (fuel : Nat) (stream : Bytes) : List Handed :=
  (objectHandleConn oi.fmt oi.fwd oi.remote oi.cls oi.maxObject fuel stream).1

/-- Some items, each flushed before the next one is read. -/
def ObjectIngress.serve (shared : Shared) (items : List Handed) : ConnEgress :=
  items.foldl (fun egr item => oi.flushEgr (oi.hand egr item)) ⟨oi.newEgress shared, 0, [], []⟩

/-- A connection from its accept to its close, with the deferred flush. -/
def ObjectIngress.run (shared : Shared) (fuel : Nat) (stream : Bytes) : ConnEgress :=
  oi.flushEgr (oi.serve shared (oi.items fuel stream))

variable (opts : EgressOpts) (window : Nat → Bytes × Bytes)

def ObjectIngress.enterMemory (egr : MemEgress) : MemState :=
  { egr.mem with shared := oi.others egr.calls egr.mem.shows }

/-- A record lies in the reader's window, a frame in the buffer it was made in. -/
def ObjectIngress.place : Place :=
  if oi.cls = .beef then .window else .made

def ObjectIngress.handInMemory (egr : MemEgress) (item : Handed) : MemEgress :=
  let (raw, s) := layItem (window egr.calls) item.raw (oi.enterMemory egr) oi.place
  let after := match item with
    | .dispatchClass _ cls =>
        (Mem.dispatchClass oi.env oi.fwd opts raw (some oi.remote) (oi.clock egr.calls) cls s).2
    | _ => s
  { egr with mem := after, calls := egr.calls + 1 }

def ObjectIngress.flushInMemory (egr : MemEgress) : MemEgress :=
  let (written, s) := Mem.flush (oi.enterMemory egr)
  { egr with mem := s, calls := egr.calls + 1, written := egr.written ++ [written] }

/-- `handleConn` over memory.  Buffer 0 is the reader's window. -/
def ObjectIngress.runInMemory (shared : Shared) (fuel : Nat) (stream : Bytes) : MemEgress :=
  oi.flushInMemory ((oi.items fuel stream).foldl
    (fun egr item => oi.flushInMemory (oi.handInMemory opts window egr item))
    ⟨.start ⟨fun _ => [], 1⟩ shared
      (if oi.fwd.coalesce ∧ 1 < objectBatchHint then some oi.fwd.coalesceMaxMembers else none),
      0, []⟩)

end Run

section Values

variable {oi : ObjectIngress}

theorem ObjectIngress.dispatch_queues (now : Time) (item : Handed) {st : FwState}
    (hcoal : st.coal = none) :
    (oi.dispatch now item st).2.coal = none := by
  cases item with
  | dispatchClass raw cls =>
      have htaken : Taken oi.env oi.fwd (fun _ => True) st
          (dispatchClass oi.env oi.fwd raw (some oi.remote) now cls st).2 := by
        refine (dispatchClass_settles oi.env oi.fwd raw (some oi.remote) now cls).taken ?_ st
        intro frame f hadmits
        cases hadmits with
        | tx hframe hgates => exact ⟨trivial, txGates_ok hgates⟩
      cases htaken with
      | queued _ hkept => exact hkept.trans hcoal
      | waits _ _ _ _ _ _ _ hsome _ => cases hcoal.symm.trans hsome
  | forwardControl raw => exact hcoal
  | dispatchBareTx tx => exact hcoal

/-- Between two objects everything of the earlier ones is out. -/
structure ObjectIngress.Served (items : List Handed) (egr : ConnEgress) : Prop where
  queue : egr.st.queue = []
  coal : egr.st.coal = none
  items : egr.handed.map Handover.item = items
  flushed : egr.flushed = egr.handed.map Handover.queued

theorem ObjectIngress.Served.next {items : List Handed} {egr : ConnEgress}
    (hserved : ObjectIngress.Served items egr) (item : Handed) :
    ObjectIngress.Served (items ++ [item]) (oi.flushEgr (oi.hand egr item)) := by
  have hcoal : (oi.enter egr).coal = none := hserved.coal
  refine ⟨rfl, oi.dispatch_queues _ item hcoal, ?_, ?_⟩
  · change (egr.handed ++ [_]).map Handover.item = _
    rw [List.map_append, hserved.items]
    rfl
  · have hempty : (oi.enter egr).queue = [] := hserved.queue
    change egr.flushed ++ [_] = (egr.handed ++ [_]).map Handover.queued
    rw [List.map_append, hserved.flushed, List.map_singleton, Handover.queued, hempty]
    rfl

theorem ObjectIngress.served (oi : ObjectIngress) (shared : Shared) (items : List Handed) :
    ObjectIngress.Served items (oi.serve shared items) := by
  induction items using List.reverseRecOn with
  | nil => exact ⟨rfl, if_neg fun harmed => Nat.lt_irrefl 1 harmed.2, rfl, rfl⟩
  | append_singleton items item ih =>
      rw [ObjectIngress.serve, List.foldl_append]
      exact ih.next item

end Values

section Memory

variable {oi : ObjectIngress} {opts : EgressOpts}

/-- The egress over memory shows the one of the lane. -/
structure ObjectIngress.Mirrors (oi : ObjectIngress) (opts : EgressOpts) (m : MemEgress)
    (egr : ConnEgress) : Prop where
  represents : Mem.Represents oi.fwd opts [0] [] m.mem egr.st
  calls : m.calls = egr.calls
  written : m.written = egr.flushed.map (Mem.written opts)

theorem ObjectIngress.Mirrors.enter {m : MemEgress} {egr : ConnEgress}
    (hmirrors : oi.Mirrors opts m egr) :
    Mem.Represents oi.fwd opts [0] [] (oi.enterMemory m) (oi.enter egr) := by
  have hothers := hmirrors.represents.others fun _ => oi.others egr.calls egr.st
  rw [ObjectIngress.enterMemory, ObjectIngress.enter, hmirrors.represents.shows, hmirrors.calls]
  exact hothers

/-- With everything out, the window is the reader's again. -/
theorem ObjectIngress.Mirrors.window {m : MemEgress} {egr : ConnEgress}
    (hmirrors : oi.Mirrors opts m egr) (hqueue : egr.st.queue = []) (hcoal : egr.st.coal = none) :
    Mem.Represents oi.fwd opts [0] [(0, (oi.enterMemory m).heap.buffer 0)] (oi.enterMemory m)
      (oi.enter egr) := by
  have hempty : (oi.enterMemory m).queue = [] :=
    List.map_eq_nil_iff.mp (hmirrors.represents.queue.symm.trans hqueue)
  have hnone : (oi.enterMemory m).coal = none :=
    Option.map_eq_none_iff.mp (hmirrors.represents.coal.symm.trans hcoal)
  refine hmirrors.enter.reclaim hempty ?_ (List.mem_singleton_self 0) List.not_mem_nil
  rw [MemState.members, hnone]

theorem ObjectIngress.Mirrors.flushEgr {m : MemEgress} {egr : ConnEgress}
    (hmirrors : oi.Mirrors opts m egr) :
    oi.Mirrors opts (oi.flushInMemory m) (oi.flushEgr egr) := by
  obtain ⟨hshown, hflushed⟩ := hmirrors.enter.flush
  refine ⟨hflushed, congrArg Nat.succ hmirrors.calls, ?_⟩
  rw [ObjectIngress.flushInMemory, ObjectIngress.flushEgr, List.map_append, ← hmirrors.written]
  exact congrArg (fun written => m.written ++ [written]) hshown

/-- Wherever an item lies, it lies in a buffer nothing else shows. -/
theorem ObjectIngress.Mirrors.lay (window : Nat → Bytes × Bytes) {m : MemEgress} {egr : ConnEgress}
    (hmirrors : oi.Mirrors opts m egr) (hqueue : egr.st.queue = []) (hcoal : egr.st.coal = none)
    (bytes : Bytes) (place : Place) :
    ∃ buf ahead tail,
      (layItem (window m.calls) bytes (oi.enterMemory m) place).1 = Mem.lying buf ahead bytes ∧
      Mem.Represents oi.fwd opts [0] [(buf, ahead ++ bytes ++ tail)]
        (layItem (window m.calls) bytes (oi.enterMemory m) place).2 (oi.enter egr) := by
  cases place with
  | made => exact ⟨_, [], [], rfl, hmirrors.enter.alloc_lying bytes⟩
  | window => exact ⟨0, _, _, rfl, (hmirrors.window hqueue hcoal).store _⟩

/-- An item is handed on from where it lies, which may be the window: nothing is read before
the flush. -/
theorem ObjectIngress.Mirrors.hand (hdec : DecodeLaws oi.env) (hlaws : FragmentLaws oi.env)
    (hpay : PayloadLaws oi.env) (window : Nat → Bytes × Bytes) {m : MemEgress} {egr : ConnEgress}
    (hmirrors : oi.Mirrors opts m egr) (hqueue : egr.st.queue = []) (hcoal : egr.st.coal = none)
    (item : Handed) :
    oi.Mirrors opts (oi.handInMemory opts window m item) (oi.hand egr item) := by
  obtain ⟨buf, ahead, tail, hraw, hlaid⟩ := hmirrors.lay window hqueue hcoal item.raw oi.place
  refine ⟨?_, congrArg Nat.succ hmirrors.calls, hmirrors.written⟩
  rw [ObjectIngress.handInMemory, ObjectIngress.hand, ← hmirrors.calls]
  dsimp only
  cases item with
  | dispatchClass raw cls =>
      rw [hraw]
      exact (Mem.agrees_dispatchClass hdec hlaws hpay (some oi.remote) _ cls _ _ hlaid).2
  | forwardControl raw => exact hlaid.forget
  | dispatchBareTx tx => exact hlaid.forget

theorem ObjectIngress.mirrors_start (oi : ObjectIngress) (opts : EgressOpts) (shared : Shared) :
    oi.Mirrors opts ⟨.start ⟨fun _ => [], 1⟩ shared
      (if oi.fwd.coalesce ∧ 1 < objectBatchHint then some oi.fwd.coalesceMaxMembers else none),
      0, []⟩ ⟨oi.newEgress shared, 0, [], []⟩ := by
  have hcoal : (oi.newEgress shared).coal =
      (if oi.fwd.coalesce ∧ 1 < objectBatchHint then some oi.fwd.coalesceMaxMembers
        else none).map newCoalBuffer := by
    rw [ObjectIngress.newEgress]
    dsimp only
    split <;> rfl
  exact ⟨(Mem.represents_window rfl hcoal).forget, rfl, rfl⟩

/-- A push connection, whatever it reads: the objects are handed on in order, each is handed
to a flush before the next one is read, with all its datagrams as they were made, the
deferred flush has nothing left, and nothing waits in a buffer that is never flushed. -/
theorem push_lane_puts_out (hdec : DecodeLaws oi.env) (hlaws : FragmentLaws oi.env)
    (hpay : PayloadLaws oi.env) (opts : EgressOpts) (window : Nat → Bytes × Bytes)
    (shared : Shared) (fuel : Nat) (stream : Bytes) :
    (oi.runInMemory opts window shared fuel stream).written =
        ((oi.run shared fuel stream).handed.map Handover.queued ++ [[]]).map (Mem.written opts) ∧
      (oi.run shared fuel stream).handed.map Handover.item = oi.items fuel stream ∧
      (oi.run shared fuel stream).st.queue = [] ∧ (oi.run shared fuel stream).st.coal = none := by
  have hserved := oi.served shared (oi.items fuel stream)
  have hmirrors : ∀ items, oi.Mirrors opts (items.foldl
        (fun egr item => oi.flushInMemory (oi.handInMemory opts window egr item))
        ⟨.start ⟨fun _ => [], 1⟩ shared
          (if oi.fwd.coalesce ∧ 1 < objectBatchHint then some oi.fwd.coalesceMaxMembers else none),
          0, []⟩) (oi.serve shared items) := by
    intro items
    induction items using List.reverseRecOn with
    | nil => exact oi.mirrors_start opts shared
    | append_singleton items item ih =>
        have hbefore := oi.served shared items
        rw [List.foldl_append, ObjectIngress.serve, List.foldl_append]
        exact (ih.hand hdec hlaws hpay window hbefore.queue hbefore.coal item).flushEgr
  refine ⟨?_, hserved.items, rfl, hserved.coal⟩
  have hrun := (hmirrors (oi.items fuel stream)).flushEgr
  refine hrun.written.trans (congrArg _ ?_)
  change (oi.serve shared (oi.items fuel stream)).flushed ++ [_] = _
  rw [hserved.flushed]
  exact congrArg (fun queue => _ ++ [queue]) hserved.queue

end Memory

section Sample

open Reference

def recordLane : ObjectIngress where
  env := Reference.env
  fmt := Reference.objfmt
  fwd := { beefForwarder with coalesce := true }
  cls := .beef
  maxObject := defaultMaxObjectBytes
  remote := source 1
  clock _ := 0
  others _ st := st.shared

def recordStream : Bytes :=
  sampleRecord (sampleObject 1) ++ sampleRecord (sampleObject 2)

/-- Two records: the fragments of the first are out before the second is read. -/
theorem push_lane_puts_out_records :
    (recordLane.runInMemory sampleOpts (fun _ => ([1], [2, 3])) state.shared 3
          recordStream).written =
        ((recordLane.run state.shared 3 recordStream).handed.map Handover.queued ++ [[]]).map
          (Mem.written sampleOpts) ∧
      (recordLane.run state.shared 3 recordStream).handed.map
        (fun h => h.queued.length) = [2, 2] := by
  refine ⟨?_, by decide +kernel⟩
  have hdec : DecodeLaws recordLane.env := decodeLaws
  have hlaws : FragmentLaws recordLane.env := fragmentLaws
  have hpay : PayloadLaws recordLane.env := payloadLaws
  exact (push_lane_puts_out hdec hlaws hpay sampleOpts _ state.shared 3 recordStream).1

end Sample

end ShardProxy
