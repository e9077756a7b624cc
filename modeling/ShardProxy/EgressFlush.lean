/-
A flush of the egress, through the sockets or through a sink, lossy or reliable.
Whatever the writers answer, each target's drain is its own: what it takes is the
front of its queue, that much is counted as forwarded and the rest as dropped, and
afterwards the queues are empty and every pooled buffer has gone back once.
-/
import ShardProxy.AsyncSender
import ShardProxy.EgressDrain

namespace ShardProxy

open ByteField Drain Handoff

/-- `Flush`, or `FlushVia`. -/
inductive FlushKind where
  | flush
  | flushVia
deriving DecidableEq

/-- What an egress is set up with: the lane, and for each target the name of its interface, its
socket and what the sink answers for it. -/
structure EgressLane (n : Nat) where
  reliable : Bool
  zones : Fin n → String
  writers : Fin n → BatchWriter
  sinks : Fin n → ViaSink

/-- What happens to an egress. -/
inductive EgressOp where
  | enqueue (item : EgressItem)
  | flush (kind : FlushKind)

inductive Metric where
  | egressError (iface : String) (workerID : Int)
  | controlFrameForwarded (label : String)
  | packetForwarded (iface : String) (workerID : Int) (groupIdx : UInt32) (size : Nat)
  | packetDropped (iface : String) (workerID : Int) (reason : String)
deriving DecidableEq

/-- A datagram that was written is counted by its label, or by its interface, worker and
group. -/
def forwardedMetric (iface : String) (m : MsgMeta) : Metric :=
  if m.ctrlLabel ≠ "" then .controlFrameForwarded m.ctrlLabel
  else .packetForwarded iface m.workerID m.groupIdx m.size

def droppedMetric (iface : String) (m : MsgMeta) : Metric :=
  .packetDropped iface m.workerID "write_error"

/-- A failing target counts once, for worker 0 whoever's the batch is. -/
def errorMetric (iface : String) : Option WriteError → List Metric
  | some _ => [.egressError iface 0]
  | none => []

def recordMeta (iface : String) (sent : Int) (err : Option WriteError) (counted : List MsgMeta) :
    List Metric :=
  -- The count is cut to what there is to count.
  let sent := if sent < 0 then 0 else if counted.length < sent then counted.length else sent.toNat
  errorMetric iface err ++ (counted.take sent).map (forwardedMetric iface) ++
    (counted.drop sent).map (droppedMetric iface)

section Flushing

variable {n : Nat}

/-- The metrics that go with what an egress does. -/
def metricsOf (zones : Fin n → String) (events : List (EgressEvent n)) : List Metric :=
  events.flatMap fun event =>
    match event with
    | .wrote i sent err counted => recordMeta (zones i) sent err counted
    | _ => []

variable (lane : EgressLane n)

def EgressLane.drain (kind : FlushKind) (i : Fin n) (past : List (List Message))
    (ms : List Message) : Drained :=
  match kind with
  | .flush =>
      if lane.reliable then flushReliable (lane.writers i) past ms
      else writeBatchAll (lane.writers i) past ms
  | .flushVia => viaLoop (lane.sinks i) lane.reliable past ms 0

/-- What a flush does at a target.  `Flush` passes over one with nothing queued. -/
def EgressLane.flushTarget (kind : FlushKind) (b : Batch n) (out : List (EgressEvent n))
    (i : Fin n) : List (EgressEvent n) :=
  if kind = .flush ∧ b.msgs i = [] then []
  else
    let drained := lane.drain kind i (callsTo i out) (b.msgs i)
    drained.calls.map (.call i) ++ [.wrote i drained.sent drained.err b.counted]

/-- What is out once every target is drained and the buffers are put back. -/
def EgressLane.flushOut (kind : FlushKind) (b : Batch n) (out : List (EgressEvent n)) :
    List (EgressEvent n) :=
  (List.finRange n).foldl (fun out i => out ++ lane.flushTarget kind b out i) out ++
    b.pooled.map .put

def EgressLane.step (e : Egress n) : EgressOp → Egress n
  | .enqueue item =>
      let (cache, queue) := egressEnqueue lane.zones item e.cache e.queue
      { e with cache := cache, queue := queue }
  | .flush kind => { e with queue := .blank n, out := lane.flushOut kind e.queue e.out }

def EgressLane.run (script : List EgressOp) : Egress n :=
  script.foldl lane.step (Egress.new n)

end Flushing

section Targets

variable {n : Nat} {lane : EgressLane n} {kind : FlushKind}

theorem callsTo_append (i : Fin n) (first second : List (EgressEvent n)) :
    callsTo i (first ++ second) = callsTo i first ++ callsTo i second :=
  List.filterMap_append

theorem callsTo_map_call (i j : Fin n) (calls : List (List Message)) :
    callsTo i (calls.map (EgressEvent.call j)) = if j = i then calls else [] := by
  induction calls with
  | nil => rw [ite_self]; rfl
  | cons call calls ih =>
      rw [List.map_cons, callsTo, List.filterMap_cons, ← callsTo, ih]
      by_cases hsame : j = i
      · simp only [hsame, ↓reduceIte]
      · simp only [hsame, ↓reduceIte]

theorem callsTo_map_put (i : Fin n) (buffers : List Nat) :
    callsTo i (buffers.map EgressEvent.put) = [] := by
  induction buffers with
  | nil => rfl
  | cons buffer buffers ih => exact ih

theorem EgressLane.drain_nil (lane : EgressLane n) (kind : FlushKind) (i : Fin n)
    (past : List (List Message)) : lane.drain kind i past [] = ⟨[], 0, none⟩ := by
  cases kind with
  | flush =>
      rw [EgressLane.drain]
      split_ifs
      · rw [flushReliable, flushLoop, dif_pos rfl]
      · rw [writeBatchAll, dif_pos rfl]
  | flushVia => rw [EgressLane.drain, viaLoop]

theorem EgressLane.callsTo_flushTarget (b : Batch n) (out : List (EgressEvent n)) (i j : Fin n) :
    callsTo i (lane.flushTarget kind b out j) =
      if j = i then (lane.drain kind i (callsTo i out) (b.msgs i)).calls else [] := by
  rw [EgressLane.flushTarget]
  split_ifs with hpassed hsame hsame
  · subst hsame
    rw [hpassed.2, EgressLane.drain_nil]
    rfl
  · rfl
  · subst hsame
    rw [callsTo_append, callsTo_map_call, if_pos rfl]
    exact List.append_nil _
  · rw [callsTo_append, callsTo_map_call, if_neg hsame]
    rfl

/-- What is done at a target depends on the calls its writer has had. -/
theorem EgressLane.flushTarget_congr {b : Batch n} {out out' : List (EgressEvent n)} {i : Fin n}
    (hcalls : callsTo i out = callsTo i out') :
    lane.flushTarget kind b out i = lane.flushTarget kind b out' i := by
  rw [EgressLane.flushTarget, EgressLane.flushTarget, hcalls]

/-- The targets are drained each on its own. -/
theorem EgressLane.foldl_flushTarget {b : Batch n} {targets : List (Fin n)} (hnodup : targets.Nodup)
    (out : List (EgressEvent n)) :
    targets.foldl (fun out i => out ++ lane.flushTarget kind b out i) out =
      out ++ targets.flatMap (lane.flushTarget kind b out) := by
  induction targets generalizing out with
  | nil => rw [List.flatMap_nil, List.append_nil]; rfl
  | cons i rest ih =>
      obtain ⟨hnew, hrest⟩ := List.nodup_cons.mp hnodup
      have hothers : rest.flatMap (lane.flushTarget kind b (out ++ lane.flushTarget kind b out i)) =
          rest.flatMap (lane.flushTarget kind b out) := by
        apply List.flatMap_congr
        intro j hj
        apply EgressLane.flushTarget_congr
        have hne : i ≠ j := fun hsame => hnew (hsame ▸ hj)
        rw [callsTo_append, EgressLane.callsTo_flushTarget, if_neg hne, List.append_nil]
      rw [List.foldl_cons, ih hrest, hothers, List.flatMap_cons, List.append_assoc]

theorem EgressLane.flushOut_eq (b : Batch n) (out : List (EgressEvent n)) :
    lane.flushOut kind b out =
      out ++ (List.finRange n).flatMap (lane.flushTarget kind b out) ++ b.pooled.map .put := by
  rw [EgressLane.flushOut, EgressLane.foldl_flushTarget (List.nodup_finRange n)]

theorem EgressLane.callsTo_flatMap (b : Batch n) (out : List (EgressEvent n)) (i : Fin n)
    {targets : List (Fin n)} (hnodup : targets.Nodup) :
    callsTo i (targets.flatMap (lane.flushTarget kind b out)) =
      if i ∈ targets then (lane.drain kind i (callsTo i out) (b.msgs i)).calls else [] := by
  induction targets with
  | nil => rfl
  | cons j rest ih =>
      obtain ⟨hnew, hrest⟩ := List.nodup_cons.mp hnodup
      rw [List.flatMap_cons, callsTo_append, ih hrest, EgressLane.callsTo_flushTarget]
      by_cases hsame : j = i
      · subst hsame
        rw [if_pos rfl, if_neg hnew, if_pos List.mem_cons_self, List.append_nil]
      · rw [if_neg hsame, List.nil_append]
        simp only [List.mem_cons, Ne.symm hsame, false_or]

end Targets

section Drains

variable {n : Nat} (lane : EgressLane n) (kind : FlushKind) (e : Egress n) (i : Fin n)

/-- How many messages a call for a target takes. -/
def EgressLane.taken : List (List Message) → List Message → Nat :=
  match kind with
  | .flush => takenBy (lane.writers i)
  | .flushVia => viaTaken (lane.sinks i)

/-- A socket is offered what is left, a sink the first of it. -/
def FlushKind.offer : List Message → List Message :=
  match kind with
  | .flush => id
  | .flushVia => List.take 1

/-- The drain of a target in a flush. -/
def EgressLane.drained : Drained :=
  lane.drain kind i (callsTo i e.out) (e.queue.msgs i)

/-- The messages that calls for a target take, the first of a flush. -/
def EgressLane.accepted (calls : List (List Message)) : List Message :=
  Drain.accepted (lane.taken kind i) (callsTo i e.out) calls

theorem EgressLane.taken_orderly : Orderly (lane.taken kind i) kind.offer := by
  cases kind with
  | flush => exact takenBy_orderly (lane.writers i)
  | flushVia => exact viaTaken_orderly (lane.sinks i)

theorem EgressLane.drained_trace : Trace (lane.taken kind i) kind.offer (callsTo i e.out)
    (e.queue.msgs i) (lane.drained kind e i).calls (lane.drained kind e i).sent := by
  rw [EgressLane.drained]
  cases kind with
  | flush =>
      rw [EgressLane.drain]
      split_ifs
      · exact (flushLoop_run _ _ _ _).trace
      · exact (writeBatchAll_run _ _ _).trace
  | flushVia => exact (viaLoop_run _ _ _ _ _).trace

theorem EgressLane.accepted_drained : lane.accepted kind e i (lane.drained kind e i).calls =
    (e.queue.msgs i).take (lane.drained kind e i).sent ∧
      (lane.drained kind e i).sent ≤ (e.queue.msgs i).length :=
  (lane.drained_trace kind e i).accepted_eq (lane.taken_orderly kind i)

theorem metricsOf_append (zones : Fin n → String) (first second : List (EgressEvent n)) :
    metricsOf zones (first ++ second) = metricsOf zones first ++ metricsOf zones second :=
  List.flatMap_append

theorem metricsOf_map_call (zones : Fin n → String) (i : Fin n) (calls : List (List Message)) :
    metricsOf zones (calls.map (EgressEvent.call i)) = [] := by
  induction calls with
  | nil => rfl
  | cons call calls ih => exact ih

theorem metricsOf_map_put (zones : Fin n → String) (buffers : List Nat) :
    metricsOf zones (buffers.map (EgressEvent.put : Nat → EgressEvent n)) = [] := by
  induction buffers with
  | nil => rfl
  | cons buffer buffers ih => exact ih

theorem recordMeta_eq (iface : String) {sent : Nat} (err : Option WriteError)
    {counted : List MsgMeta} (hsent : sent ≤ counted.length) :
    recordMeta iface sent err counted =
      errorMetric iface err ++ (counted.take sent).map (forwardedMetric iface) ++
        (counted.drop sent).map (droppedMetric iface) := by
  have hkept : (if (sent : Int) < 0 then 0 else
      if (counted.length : Int) < sent then counted.length else (sent : Int).toNat) = sent := by
    rw [if_neg (by omega), if_neg (by omega), Int.toNat_natCast]
  rw [recordMeta, hkept]

/-- The metrics of one target: what it took as forwarded, the rest as dropped. -/
theorem EgressLane.metricsOf_flushTarget
    (haligned : (e.queue.msgs i).length = e.queue.counted.length) :
    metricsOf lane.zones (lane.flushTarget kind e.queue e.out i) =
      errorMetric (lane.zones i) (lane.drained kind e i).err ++
        (e.queue.counted.take (lane.drained kind e i).sent).map
          (forwardedMetric (lane.zones i)) ++
        (e.queue.counted.drop (lane.drained kind e i).sent).map
          (droppedMetric (lane.zones i)) := by
  have hle := (lane.accepted_drained kind e i).2
  rw [haligned, EgressLane.drained] at hle
  rw [EgressLane.flushTarget, EgressLane.drained]
  split_ifs with hpassed
  · have hnone : e.queue.counted = [] := by
      rw [hpassed.2, List.length_nil] at haligned
      exact List.length_eq_zero_iff.mp haligned.symm
    rw [hpassed.2, EgressLane.drain_nil, hnone]
    rfl
  · rw [metricsOf_append, metricsOf_map_call, List.nil_append]
    exact (List.append_nil _).trans (recordMeta_eq (lane.zones i) _ hle)

theorem EgressLane.put_notMem_flushTarget (b : Batch n) (out : List (EgressEvent n))
    (buffer : Nat) : .put buffer ∉ lane.flushTarget kind b out i := by
  intro hput
  rw [EgressLane.flushTarget] at hput
  split_ifs at hput
  · cases hput
  · simp at hput

end Drains

/-- What a flush does, at every target and in all. -/
structure FlushExact {n : Nat} (lane : EgressLane n) (kind : FlushKind) (e : Egress n) : Prop where
  /-- There is a message for every target for each that is counted. -/
  aligned : ∀ i, (e.queue.msgs i).length = e.queue.counted.length
  calls : ∀ i, callsTo i (lane.step e (.flush kind)).out =
    callsTo i e.out ++ (lane.drained kind e i).calls
  /-- Each call is offered what those before it have left, or the first of it. -/
  offered : ∀ i before offered after,
    (lane.drained kind e i).calls = before ++ offered :: after →
      offered = kind.offer ((e.queue.msgs i).drop (lane.accepted kind e i before).length)
  accepted : ∀ i, lane.accepted kind e i (lane.drained kind e i).calls <+: e.queue.msgs i
  metrics : metricsOf lane.zones (lane.step e (.flush kind)).out =
    metricsOf lane.zones e.out ++ (List.finRange n).flatMap fun i =>
      errorMetric (lane.zones i) (lane.drained kind e i).err ++
        (e.queue.counted.take (lane.accepted kind e i (lane.drained kind e i).calls).length).map
          (forwardedMetric (lane.zones i)) ++
        (e.queue.counted.drop (lane.accepted kind e i (lane.drained kind e i).calls).length).map
          (droppedMetric (lane.zones i))
  cleared : (lane.step e (.flush kind)).queue = .blank n
  returned : putsOf (lane.step e (.flush kind)).out = putsOf e.out ++ e.queue.pooled

/-- The same lane with other sockets and sinks at every target but one. -/
def EgressLane.withOthers {n : Nat} (lane : EgressLane n) (i : Fin n)
    (writers : Fin n → BatchWriter) (sinks : Fin n → ViaSink) : EgressLane n :=
  { lane with
    writers := Function.update writers i (lane.writers i)
    sinks := Function.update sinks i (lane.sinks i) }

/-- The pooled buffers a script enqueues. -/
def pooledBuffers (script : List EgressOp) : List Nat :=
  script.filterMap fun op =>
    match op with
    | .enqueue item => if item.req.pooled then some item.buffer else none
    | .flush _ => none

section Runs

variable {n : Nat} (lane : EgressLane n)

theorem EgressLane.run_snoc (script : List EgressOp) (op : EgressOp) :
    lane.run (script ++ [op]) = lane.step (lane.run script) op := by
  rw [EgressLane.run, List.foldl_append]
  rfl

/-- Between operations every target has a message for each that is counted. -/
theorem EgressLane.run_aligned (script : List EgressOp) (i : Fin n) :
    ((lane.run script).queue.msgs i).length = (lane.run script).queue.counted.length := by
  induction script using List.reverseRecOn with
  | nil => rfl
  | append_singleton script op ih =>
      rw [EgressLane.run_snoc]
      cases op with
      | enqueue item =>
          simp only [EgressLane.step, egressEnqueue, List.length_append, ih, List.length_cons,
            List.length_nil]
      | flush kind => rfl

theorem EgressLane.flushExact {e : Egress n} (kind : FlushKind)
    (haligned : ∀ i, (e.queue.msgs i).length = e.queue.counted.length) :
    FlushExact lane kind e where
  aligned := haligned
  calls i := by
    rw [EgressLane.step, EgressLane.flushOut_eq, callsTo_append, callsTo_append, callsTo_map_put,
      List.append_nil, EgressLane.callsTo_flatMap _ _ _ (List.nodup_finRange n),
      if_pos (List.mem_finRange i)]
    rfl
  offered i before offered after hcalls :=
    (lane.drained_trace kind e i).offered (lane.taken_orderly kind i) hcalls
  accepted i := by
    rw [(lane.accepted_drained kind e i).1]
    exact List.take_prefix _ _
  metrics := by
    rw [EgressLane.step, EgressLane.flushOut_eq, metricsOf_append, metricsOf_append,
      metricsOf_map_put, List.append_nil]
    congr 1
    rw [metricsOf, List.flatMap_assoc]
    apply List.flatMap_congr
    intro i _
    obtain ⟨hfront, hle⟩ := lane.accepted_drained kind e i
    rw [hfront, List.length_take, Nat.min_eq_left hle]
    exact lane.metricsOf_flushTarget kind e i (haligned i)
  cleared := rfl
  returned := by
    have hnone : putsOf ((List.finRange n).flatMap (lane.flushTarget kind e.queue e.out)) = [] := by
      apply putsOf_of_none
      intro buffer hput
      obtain ⟨i, -, hput⟩ := List.mem_flatMap.mp hput
      exact lane.put_notMem_flushTarget kind i e.queue e.out buffer hput
    rw [EgressLane.step, EgressLane.flushOut_eq, putsOf_append, putsOf_append, hnone,
      List.append_nil, putsOf_map_put]

/-- The calls of a target depend on its own socket and sink. -/
theorem EgressLane.run_withOthers (i : Fin n) (writers : Fin n → BatchWriter)
    (sinks : Fin n → ViaSink) (script : List EgressOp) :
    ((lane.withOthers i writers sinks).run script).cache = (lane.run script).cache ∧
      ((lane.withOthers i writers sinks).run script).queue = (lane.run script).queue ∧
      callsTo i ((lane.withOthers i writers sinks).run script).out =
        callsTo i (lane.run script).out := by
  induction script using List.reverseRecOn with
  | nil => exact ⟨rfl, rfl, rfl⟩
  | append_singleton script op ih =>
      obtain ⟨hcache, hqueue, hcalls⟩ := ih
      rw [EgressLane.run_snoc, EgressLane.run_snoc]
      cases op with
      | enqueue item =>
          simp only [EgressLane.step, hcache, hqueue]
          exact ⟨rfl, rfl, hcalls⟩
      | flush kind =>
          refine ⟨hcache, rfl, ?_⟩
          have hdrain : ∀ past ms, (lane.withOthers i writers sinks).drain kind i past ms =
              lane.drain kind i past ms := by
            intro past ms
            simp only [EgressLane.drain, EgressLane.withOthers, Function.update_self]
          rw [((lane.withOthers i writers sinks).flushExact kind
              ((lane.withOthers i writers sinks).run_aligned script)).calls i,
            (lane.flushExact kind (lane.run_aligned script)).calls i, EgressLane.drained,
            EgressLane.drained, hdrain, hcalls, hqueue]

/-- Every pooled buffer is queued, or has gone back, once. -/
theorem EgressLane.run_returned (script : List EgressOp) :
    putsOf (lane.run script).out ++ (lane.run script).queue.pooled = pooledBuffers script := by
  induction script using List.reverseRecOn with
  | nil => rfl
  | append_singleton script op ih =>
      rw [EgressLane.run_snoc, pooledBuffers, List.filterMap_append, ← pooledBuffers, ← ih]
      cases op with
      | enqueue item =>
          simp only [EgressLane.step, egressEnqueue]
          cases hpooled : item.req.pooled with
          | true => simp [hpooled]
          | false => simp [hpooled]
      | flush kind =>
          have hexact := lane.flushExact kind (lane.run_aligned script)
          rw [hexact.returned, hexact.cleared]
          simp [Batch.blank]

/-- A flush after any operations drains every target exactly, and each on its own. -/
theorem flush_exact (script : List EgressOp) (kind : FlushKind) :
    FlushExact lane kind (lane.run script) ∧
      (∀ i writers sinks, callsTo i ((lane.withOthers i writers sinks).run script).out =
        callsTo i (lane.run script).out) ∧
      putsOf (lane.run script).out ++ (lane.run script).queue.pooled = pooledBuffers script ∧
      ∀ (w : BatchWriter) past ms, (writeBatchAll w past ms).err = none →
        (writeBatchAll w past ms).sent = ms.length := by
  refine ⟨lane.flushExact kind (lane.run_aligned script), ?_, lane.run_returned script, ?_⟩
  · intro i writers sinks
    exact (lane.run_withOthers i writers sinks script).2.2
  · intro w past ms hnone
    exact (writeBatchAll_run w past ms).complete hnone

end Runs

section Sample

/-- Two interfaces on the lossy lane: the second socket fails on every other call. -/
def sampleLane : EgressLane 2 :=
  ⟨false, sampleZones, sampleWriters,
    fun _ past _ => if past.length = 1 then some .eintr else none⟩

/-- A datagram with a pooled buffer and one without, flushed; then another one. -/
def sampleLaneScript : List EgressOp :=
  let item (byte : UInt8) (pooled : Bool) : EgressItem :=
    ⟨{ enqueueData [byte] ⟨⟨0, 0, 0⟩, 9001⟩ 0 with pooled := pooled }, 0, byte.toNat⟩
  [.enqueue (item 1 true), .enqueue (item 2 false), .flush .flush, .enqueue (item 3 true)]

/-- What a sink takes after that, and the buffer that goes back. -/
theorem flush_exact_sample :
    FlushExact sampleLane .flushVia (sampleLane.run sampleLaneScript) ∧
      putsOf (sampleLane.run sampleLaneScript).out ++
        (sampleLane.run sampleLaneScript).queue.pooled = [1, 3] := by
  obtain ⟨hexact, -, hbuffers, -⟩ := flush_exact sampleLane sampleLaneScript .flushVia
  exact ⟨hexact, hbuffers.trans rfl⟩

end Sample

end ShardProxy
