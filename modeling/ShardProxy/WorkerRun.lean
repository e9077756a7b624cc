/-
A UDP worker as it runs.  `Run` reads batches of datagrams into the same slots over and
over, dispatches each where it lies, bundles what waits and flushes; only then are the
slots written again.  The worker over memory puts out what a worker would that keeps the
bytes of every datagram to itself.
-/
import ShardProxy.MemoryFlush
import ShardProxy.Reference

namespace ShardProxy

open ByteField SliceHeap Stateful

/-- The size of a receive slot.  A datagram that fills it may have been cut. -/
def recvBufSize : Nat := 65536

def defaultRecvBatch : Nat := 32

/-- A worker of the ingress. -/
structure Worker where
  recvBatch : Nat
  recvBatch_pos : 1 ≤ recvBatch
  cls : IngressClass

namespace Worker

/-- `New`: a worker that admits every class. -/
def new : Worker := ⟨defaultRecvBatch, by decide, .privileged⟩

end Worker

/-- A datagram that was read, when its turn comes, and what the other lanes did to the
shared state until then.  The kernel gives no more of it than fits the slot. -/
structure Inbound where
  data : Bytes
  src : NetAddr
  now : Time
  others : Shared → Shared
  fits : data.length ≤ recvBufSize

/-- What `ReadBatch` comes to: datagrams in the first slots, an error, or the error of a
closed socket.  `others` is what the other lanes do until the batch is flushed. -/
inductive ReadBatch (size : Nat) where
  | batch (arrivals : List Inbound) (count : arrivals.length ≤ size) (others : Shared → Shared)
  | failed
  | closed

/-- What a worker does that is seen from outside: what it counts, and what it writes.
`drained` is the deferred flush. -/
inductive WorkerEvent where
  | ingressError
  | truncated
  | dispatched (bytes : Nat) (result : Except Drop Unit)
  | flushed (written : Written)
  | drained (written : Written)

section Values

variable (env : Env) (fw : Forwarder) (opts : EgressOpts) (w : Worker)

/-- `NewEgress` for the worker: it coalesces over batches of more than one. -/
def Worker.newEgress (shared : Shared) : FwState where
  chains := shared.chains
  stores := shared.stores
  beefLimit := shared.beefLimit
  bridging := shared.bridging
  queue := []
  coal :=
    if fw.coalesce ∧ 1 < w.recvBatch then some (newCoalBuffer fw.coalesceMaxMembers) else none

/-- Handle one datagram by its bytes. -/
def Worker.handle (a : Inbound) (st : FwState) : WorkerEvent × FwState :=
  let st := st.withShared (a.others st.shared)
  if a.data.length = recvBufSize then (.truncated, st)
  else
    let ran := dispatchClass env fw a.data (some a.src) a.now w.cls st
    (.dispatched a.data.length ran.1, ran.2)

def Worker.handleAll : List Inbound → FwState → List WorkerEvent × FwState
  | [], st => ([], st)
  | a :: rest, st =>
      let (event, st) := w.handle env fw a st
      let (events, st) := handleAll rest st
      (event :: events, st)

/-- The worker if every datagram kept its bytes to itself. -/
def Worker.run : List (ReadBatch w.recvBatch) → FwState → List WorkerEvent × FwState
  | [], st => ([], st)
  | .closed :: _, st =>
      ([.drained (Mem.written opts st.queue)], { st with queue := [] })
  | .failed :: rest, st =>
      let (events, st) := run rest st
      (.ingressError :: events, st)
  | .batch arrivals _ others :: rest, st =>
      let (handled, st) := w.handleAll env fw arrivals st
      let st := (flushCoalescedFw env fw (st.withShared (others st.shared))).2
      let (events, final) := run rest { st with queue := [] }
      (handled ++ .flushed (Mem.written opts st.queue) :: events, final)

end Values

section Memory

variable (env : Env) (fw : Forwarder) (opts : EgressOpts) (w : Worker)

def Worker.slots : List Nat := List.range w.recvBatch

/-- The bound of the coalescing buffer, on batches of more than one. -/
def Worker.armed : Option Int :=
  if fw.coalesce ∧ 1 < w.recvBatch then some fw.coalesceMaxMembers else none

/-- The worker's memory as it enters its loop: the slots, made once, and a new egress. -/
def Worker.memory (shared : Shared) : MemState :=
  .start ⟨fun _ => List.replicate recvBufSize 0, w.recvBatch⟩ shared (w.armed fw)

/-- `ReadBatch` writes a datagram over the front of each slot; behind it the slot keeps
what it held. -/
def fillSlots : List (Nat × Inbound) → Heap UInt8 → Heap UInt8
  | [], heap => heap
  | (slot, a) :: rest, heap =>
      let heap := fillSlots rest heap
      heap.store slot (a.data ++ (heap.buffer slot).drop a.data.length)

/-- Handle one datagram where it lies. -/
def Worker.handleSlot (slot : Nat) (a : Inbound) (s : MemState) : WorkerEvent × MemState :=
  let s := { s with shared := a.others s.shared }
  if a.data.length = recvBufSize then (.truncated, s)
  else
    let ran := Mem.dispatchClass env fw opts ⟨slot, 0, a.data.length⟩ (some a.src) a.now w.cls s
    (.dispatched a.data.length ran.1, ran.2)

def Worker.handleSlots : List (Nat × Inbound) → MemState → List WorkerEvent × MemState
  | [], s => ([], s)
  | (slot, a) :: rest, s =>
      let (event, s) := w.handleSlot env fw opts slot a s
      let (events, s) := handleSlots rest s
      (event :: events, s)

/-- `Run`, from the first `ReadBatch` on. -/
def Worker.runInMemory : List (ReadBatch w.recvBatch) → MemState → List WorkerEvent × MemState
  | [], s => ([], s)
  | .closed :: _, s =>
      let (written, s) := Mem.flush s
      ([.drained written], s)
  | .failed :: rest, s =>
      let (events, s) := runInMemory rest s
      (.ingressError :: events, s)
  | .batch arrivals _ others :: rest, s =>
      let filled := (w.slots.take arrivals.length).zip arrivals
      let s := { s with heap := fillSlots filled s.heap }
      let (handled, s) := w.handleSlots env fw opts filled s
      let s := (Mem.flushCoalesced env fw opts { s with shared := others s.shared }).2
      let (written, s) := Mem.flush s
      let (events, s) := runInMemory rest s
      (handled ++ .flushed written :: events, s)

end Memory

namespace Mem

variable {env : Env} {fw : Forwarder} {opts : EgressOpts} {w : Worker} {slots : List Nat}
  {idle rest : List (Nat × Bytes)} {s : MemState} {st : FwState}

/-- A lane between two batches: nothing is queued and nothing waits. -/
structure Settled (fw : Forwarder) (opts : EgressOpts) (slots : List Nat) (s : MemState)
    (st : FwState) : Prop where
  represents : Represents fw opts slots [] s st
  queue : s.queue = []
  members : s.members = []

theorem fillSlots_buffer {filled : List (Nat × Inbound)} {heap : Heap UInt8} {buf : Nat}
    (hbuf : buf ∉ filled.map Prod.fst) : (fillSlots filled heap).buffer buf = heap.buffer buf := by
  induction filled with
  | nil => rfl
  | cons entry rest ih =>
      rw [List.map_cons, List.mem_cons, not_or] at hbuf
      rw [fillSlots, Heap.store_buffer_of_ne hbuf.1]
      exact ih hbuf.2

/-- The slots that were filled are idle and hold their datagrams. -/
theorem Settled.fill (hsettled : Settled fw opts slots s st) {filled : List (Nat × Inbound)}
    (hdistinct : (filled.map Prod.fst).Nodup)
    (hslots : ∀ slot ∈ filled.map Prod.fst, slot ∈ slots) :
    Represents fw opts slots
      (filled.map fun entry => (entry.1, entry.2.data ++
        (s.heap.buffer entry.1).drop entry.2.data.length))
      { s with heap := fillSlots filled s.heap } st := by
  induction filled with
  | nil => exact hsettled.represents
  | cons entry later ih =>
      obtain ⟨slot, a⟩ := entry
      rw [List.map_cons, List.nodup_cons] at hdistinct
      have hlater := ih hdistinct.2 fun other hother => hslots other (List.mem_cons_of_mem _ hother)
      have hidle : slot ∉ (later.map fun entry => (entry.1, entry.2.data ++
          (s.heap.buffer entry.1).drop entry.2.data.length)).map Prod.fst := by
        rw [List.map_map]
        exact hdistinct.1
      have hclaimed := hlater.reclaim hsettled.queue hsettled.members
        (hslots slot List.mem_cons_self) hidle
      have hstored := hclaimed.store
        (a.data ++ ((fillSlots later s.heap).buffer slot).drop a.data.length)
      rw [fillSlots_buffer hdistinct.1] at hstored
      rw [List.map_cons, fillSlots]
      dsimp only
      rw [fillSlots_buffer hdistinct.1]
      exact hstored

/-- One datagram, where it lies and by its bytes. -/
theorem Represents.handleSlot (w : Worker) (hdec : DecodeLaws env) (hlaws : FragmentLaws env)
    (hpay : PayloadLaws env) {slot : Nat} {a : Inbound} {tail : Bytes}
    (hrep : Represents fw opts slots ((slot, [] ++ a.data ++ tail) :: rest) s st) :
    (w.handleSlot env fw opts slot a s).1 = (w.handle env fw a st).1 ∧
      Represents fw opts slots rest (w.handleSlot env fw opts slot a s).2
        (w.handle env fw a st).2 := by
  have hshared := hrep.others a.others
  rw [Worker.handleSlot, Worker.handle]
  dsimp only
  split
  · exact ⟨rfl, hshared.forget⟩
  · obtain ⟨hresult, hstates⟩ := agrees_dispatchClass hdec hlaws hpay (some a.src) a.now w.cls
      _ _ hshared
    exact ⟨congrArg (WorkerEvent.dispatched a.data.length) hresult, hstates⟩

theorem Represents.handleSlots (w : Worker) (hdec : DecodeLaws env) (hlaws : FragmentLaws env)
    (hpay : PayloadLaws env) {filled : List (Nat × Inbound)} {tails : Nat × Inbound → Bytes}
    (hrep : Represents fw opts slots
      (filled.map fun entry => (entry.1, entry.2.data ++ tails entry)) s st) :
    (w.handleSlots env fw opts filled s).1 =
        (w.handleAll env fw (filled.map Prod.snd) st).1 ∧
      Represents fw opts slots [] (w.handleSlots env fw opts filled s).2
        (w.handleAll env fw (filled.map Prod.snd) st).2 := by
  induction filled generalizing s st with
  | nil => exact ⟨rfl, hrep⟩
  | cons entry later ih =>
      obtain ⟨slot, a⟩ := entry
      obtain ⟨hevent, hstates⟩ := hrep.handleSlot w hdec hlaws hpay
      obtain ⟨hevents, hfinal⟩ := ih hstates
      rw [List.map_cons, Worker.handleSlots, Worker.handleAll]
      exact ⟨congrArg₂ List.cons hevent hevents, hfinal⟩

end Mem

section Runs

variable {env : Env} {fw : Forwarder} {opts : EgressOpts} {w : Worker} {s : MemState}
  {st : FwState}

/-- The deferred flush finds nothing. -/
def WorkerEvent.NothingLeft : WorkerEvent → Prop
  | .drained written => written = ⟨[], [], []⟩
  | _ => True

theorem handleAll_nothingLeft {arrivals : List Inbound} :
    ∀ event ∈ (w.handleAll env fw arrivals st).1, event.NothingLeft := by
  induction arrivals generalizing st with
  | nil => exact fun event hevent => by cases hevent
  | cons a rest ih =>
      intro event hevent
      rw [Worker.handleAll] at hevent
      rcases List.mem_cons.mp hevent with rfl | hlater
      · rw [Worker.handle]
        dsimp only
        split <;> trivial
      · exact ih event hlater

theorem slots_zip (w : Worker) {arrivals : List Inbound} (hcount : arrivals.length ≤ w.recvBatch) :
    ((w.slots.take arrivals.length).zip arrivals).map Prod.snd = arrivals ∧
      (((w.slots.take arrivals.length).zip arrivals).map Prod.fst).Nodup ∧
      ∀ slot ∈ ((w.slots.take arrivals.length).zip arrivals).map Prod.fst, slot ∈ w.slots := by
  have hlength : (w.slots.take arrivals.length).length = arrivals.length := by
    rw [Worker.slots, List.length_take, List.length_range]
    exact Nat.min_eq_left hcount
  have hsublist := List.take_sublist arrivals.length w.slots
  rw [List.map_snd_zip hlength.ge, List.map_fst_zip hlength.le]
  exact ⟨rfl, hsublist.nodup List.nodup_range, fun slot hslot => hsublist.subset hslot⟩

/-- Whole runs between settled states. -/
theorem settled_run (hdec : DecodeLaws env) (hlaws : FragmentLaws env) (hpay : PayloadLaws env)
    (reads : List (ReadBatch w.recvBatch)) (hsettled : Mem.Settled fw opts w.slots s st) :
    (w.runInMemory env fw opts reads s).1 = (w.run env fw opts reads st).1 ∧
      ∀ event ∈ (w.run env fw opts reads st).1, event.NothingLeft := by
  induction reads generalizing s st with
  | nil => exact ⟨rfl, fun event hevent => by cases hevent⟩
  | cons read rest ih =>
      cases read with
      | closed =>
          obtain ⟨hshown, _⟩ := hsettled.represents.flush
          have hempty : st.queue = [] := by
            rw [hsettled.represents.queue, hsettled.queue, List.map_nil]
          rw [Worker.runInMemory, Worker.run]
          refine ⟨congrArg (fun written => [WorkerEvent.drained written]) hshown,
            fun event hevent => ?_⟩
          obtain rfl := List.mem_singleton.mp hevent
          rw [hempty]
          exact Mem.written_nil opts
      | failed =>
          obtain ⟨hevents, hleft⟩ := ih hsettled
          rw [Worker.runInMemory, Worker.run]
          refine ⟨congrArg (List.cons WorkerEvent.ingressError) hevents, fun event hevent => ?_⟩
          rcases List.mem_cons.mp hevent with rfl | hlater
          · trivial
          · exact hleft event hlater
      | batch arrivals hcount others =>
          obtain ⟨hvalues, hdistinct, hslots⟩ := slots_zip w hcount
          have hfilled := hsettled.fill hdistinct hslots
          obtain ⟨hhandled, hstates⟩ := hfilled.handleSlots w hdec hlaws hpay
          rw [hvalues] at hhandled hstates
          obtain ⟨hshown, hnext, hqueue, hmembers⟩ := (hstates.others others).flushAll env
          obtain ⟨hevents, hleft⟩ := ih ⟨hnext, hqueue, hmembers⟩
          rw [Worker.runInMemory, Worker.run]
          refine ⟨congrArg₂ (· ++ ·) hhandled
            (congrArg₂ List.cons (congrArg WorkerEvent.flushed hshown) hevents), ?_⟩
          intro event hevent
          rcases List.mem_append.mp hevent with hearlier | hlater
          · exact handleAll_nothingLeft event hearlier
          · rcases List.mem_cons.mp hlater with rfl | hrest
            · trivial
            · exact hleft event hrest

theorem settled_memory (fw : Forwarder) (opts : EgressOpts) (w : Worker) (shared : Shared) :
    Mem.Settled fw opts w.slots (w.memory fw shared) (w.newEgress fw shared) := by
  have hcoal : (w.newEgress fw shared).coal = (w.armed fw).map newCoalBuffer := by
    rw [Worker.newEgress, Worker.armed]
    split <;> rfl
  refine ⟨?_, rfl, Mem.members_start _ _ _⟩
  refine Mem.represents_start ?_ ?_ ?_ ?_ rfl hcoal
  · exact fun entry hentry => by cases hentry
  · exact List.nodup_nil
  · exact fun buf hbuf => by cases hbuf
  · exact fun buf hbuf => List.mem_range.mp hbuf

/-- Whatever is read, the worker over its reused slots and pool buffers puts out what a
worker would that keeps the bytes of every datagram to itself, and counts what it counts;
the deferred flush finds nothing left of any batch. -/
theorem worker_run_unaliased (hdec : DecodeLaws env) (hlaws : FragmentLaws env)
    (hpay : PayloadLaws env) (fw : Forwarder) (opts : EgressOpts) (w : Worker) (shared : Shared)
    (reads : List (ReadBatch w.recvBatch)) :
    (w.runInMemory env fw opts reads (w.memory fw shared)).1 =
        (w.run env fw opts reads (w.newEgress fw shared)).1 ∧
      ∀ event ∈ (w.runInMemory env fw opts reads (w.memory fw shared)).1, event.NothingLeft := by
  obtain ⟨hevents, hleft⟩ := settled_run hdec hlaws hpay reads (settled_memory fw opts w shared)
  exact ⟨hevents, hevents ▸ hleft⟩

end Runs

/-- A flush of so many datagrams. -/
def WorkerEvent.sends (n : Nat) : WorkerEvent → Bool
  | .flushed written => written.queue.length = n
  | _ => false

namespace Reference

theorem decodeFields_payload {version : UInt8} {raw : Bytes} {fields : Fields}
    (hdecode : decodeFields version raw = some fields) :
    ∃ rest, raw.drop headerSize = fields.payload ++ rest := by
  rw [decodeFields] at hdecode
  split at hdecode
  · rw [← Option.some.inj hdecode]
    exact ⟨_, (List.take_append_drop _ _).symm⟩
  · cases hdecode

theorem payloadLaws : PayloadLaws env where
  decode := by
    intro raw f hdecode hversion
    obtain ⟨fields, hfields, rfl⟩ := decode_eq_toFrame hdecode hversion
    exact decodeFields_payload hfields
  decodeBlock := by
    intro raw bf hdecode
    obtain ⟨fields, hfields, rfl⟩ := fields_of_guarded hdecode
    exact decodeFields_payload hfields
  decodeSubtreeData := by
    intro raw sf hdecode
    obtain ⟨fields, hfields, rfl⟩ := fields_of_guarded hdecode
    exact decodeFields_payload hfields
  decodeBEEF := by
    intro raw bf hdecode
    obtain ⟨fields, hfields, rfl⟩ := Option.map_eq_some_iff.mp hdecode
    exact decodeFields_payload hfields

def sampleInbound (tx : Bytes) (hfits : headerSize + tx.length ≤ recvBufSize) : Inbound where
  data := sampleFrame (sampleID 1) tx
  src := source 1
  now := 0
  others := id
  fits := by
    rw [sampleFrame, length_encodeFields]
    exact hfits

/-- A long and a short transaction. -/
def sampleArrivals (lockTime : UInt8) : List Inbound :=
  [sampleInbound (sampleTx lockTime ++ sampleTx lockTime) (by
      rw [List.length_append, length_sampleTx]
      decide),
    sampleInbound (sampleTx lockTime) (by
      rw [length_sampleTx]
      decide)]

/-- Two batches over the same slots, then the end. -/
def sampleReads : List (ReadBatch Worker.new.recvBatch) :=
  [.batch (sampleArrivals 0) (by decide) id, .failed, .batch (sampleArrivals 1) (by decide) id,
    .closed]

/-- Tee and mirror, and a pool that gives its first free buffer again. -/
def sampleOpts : EgressOpts := ⟨true, true, fun _ _ => some 0⟩

/-- A forwarder that bundles the short ones and cuts the long ones in two. -/
def cuttingForwarder : Forwarder := { coalescingForwarder with fragDataSize := 64 }

/-- Each flush puts out two fragments and a bundle, and the second writes its fragments over
those of the first: four were asked of the pool, which has two buffers. -/
theorem worker_run_unaliased_sample :
    ((Worker.new.runInMemory env cuttingForwarder sampleOpts sampleReads
            (Worker.new.memory cuttingForwarder state.shared)).1 =
          (Worker.new.run env cuttingForwarder sampleOpts sampleReads
            (Worker.new.newEgress cuttingForwarder state.shared)).1 ∧
        ∀ event ∈ (Worker.new.runInMemory env cuttingForwarder sampleOpts sampleReads
            (Worker.new.memory cuttingForwarder state.shared)).1, event.NothingLeft) ∧
      (Worker.new.run env cuttingForwarder sampleOpts sampleReads
          (Worker.new.newEgress cuttingForwarder state.shared)).1.countP
        (WorkerEvent.sends 3) = 2 ∧
      (Worker.new.runInMemory env cuttingForwarder sampleOpts sampleReads
          (Worker.new.memory cuttingForwarder state.shared)).2.gets = 4 ∧
      (Worker.new.runInMemory env cuttingForwarder sampleOpts sampleReads
          (Worker.new.memory cuttingForwarder state.shared)).2.free.length = 2 :=
  ⟨worker_run_unaliased decodeLaws fragmentLaws payloadLaws cuttingForwarder sampleOpts
    Worker.new state.shared sampleReads, by decide +kernel, by decide +kernel, by decide +kernel⟩

end Reference

end ShardProxy
