/-
A TCP connection over memory.  Frames and announces are read into buffers made for them;
records and bare transactions are handed on in the window of the object reader, which the
next read overwrites while what was queued is not flushed yet.  That is safe because an
input that is not framed goes out from a buffer of its own.
-/
import ShardProxy.BlockingReads
import ShardProxy.WorkerRun

namespace ShardProxy

open ByteField SliceHeap Stateful

/-- Where an item lies when it is handed on. -/
inductive Place where
  | made
  | window

/-- What a connection calls on its egress. -/
inductive EgrCall where
  | hand (item : Handed) (place : Place)
  | flush

/-- Objects lie in the reader's window, frames in buffers of their own. -/
def LoopState.place {S : Type} : LoopState S → Place
  | .beef _ | .bare _ => .window
  | _ => .made

/-- The forwarder's state that memory shows. -/
def MemState.shows (s : MemState) : FwState where
  chains := s.shared.chains
  stores := s.shared.stores
  beefLimit := s.shared.beefLimit
  bridging := s.shared.bridging
  queue := s.queue.map (SliceReq.shows s.heap)
  coal := s.coal.map (SliceCoal.shows s.heap)

section Run

variable (ti : TCPIngress) (opts : EgressOpts) (window : Nat → Bytes × Bytes)

def flushCalls (pending : Nat) : List EgrCall :=
  if 0 < pending then [.flush] else []

variable {ti} in
/-- The calls of one step of the goroutine. -/
def Conn.calls (c : Conn ti.reader.State) : List EgrCall :=
  match c.phase with
  | .running loop =>
      match ti.look loop with
      | .read => if 0 < ti.linger ∧ 0 < c.pending then [] else flushCalls c.pending
      | .settle _ => []
      | .hand item _ =>
          .hand item loop.place :: if maxTCPBatch ≤ c.pending + 1 then [.flush] else []
      | .close _ => [.flush]
  | .lingering _ =>
      match c.script with
      | .timeout :: _ => flushCalls c.pending
      | _ => []
  | _ => []

def ConnEgress.call (egr : ConnEgress) : EgrCall → ConnEgress
  | .hand item _ => egr.hand ti item
  | .flush => egr.flushEgr ti

/-- The egress of a connection over memory, with what its flushes put out.  Buffer 0 is
the reader's window. -/
structure MemEgress where
  mem : MemState
  calls : Nat
  written : List Written

/-- Until a call comes the other lanes have moved on, and the reader may have read into its
window or moved what is left there to its front. -/
def MemEgress.enter (egr : MemEgress) : MemState :=
  { egr.mem with
    shared := ti.others egr.calls egr.mem.shows
    heap := egr.mem.heap.store 0 ((window egr.calls).1 ++ (window egr.calls).2) }

/-- Lay an item where it is handed on.  In the window it stands between what the reader
left there before it and has read ahead. -/
def layItem (around : Bytes × Bytes) (bytes : Bytes) (s : MemState) : Place → Slice × MemState
  | .made => (⟨s.heap.next, 0, bytes.length⟩, { s with heap := s.heap.alloc bytes })
  | .window => (⟨0, around.1.length, bytes.length⟩,
      { s with heap := s.heap.store 0 (around.1 ++ bytes ++ around.2) })

/-- Hand an item to the forwarder where it lies. -/
def TCPIngress.dispatchAt (now : Time) (raw : Slice) : Handed → Mem Unit
  | .dispatchClass _ cls => Mem.dispatchClass ti.env ti.fwd opts raw (some ti.remote) now cls
  | .forwardControl _ => Mem.enqueueControl opts raw
      (ti.fwd.controlAddr groupSubtreeGroupAnnounce) "subtree_group_announce"
  | .dispatchBareTx _ => Mem.dispatchBareTx ti.env ti.fwd opts raw (some ti.remote)

def MemEgress.hand (egr : MemEgress) (item : Handed) (place : Place) : MemEgress :=
  let (raw, s) := layItem (window egr.calls) item.raw (egr.enter ti window) place
  { egr with
    mem := (ti.dispatchAt opts (ti.clock egr.calls) raw item s).2
    calls := egr.calls + 1 }

def MemEgress.flushEgr (egr : MemEgress) : MemEgress :=
  let (written, s) := Mem.flush (Mem.flushCoalesced ti.env ti.fwd opts (egr.enter ti window)).2
  { egr with mem := s, calls := egr.calls + 1, written := egr.written ++ [written] }

def MemEgress.call (egr : MemEgress) : EgrCall → MemEgress
  | .hand item place => egr.hand ti opts window item place
  | .flush => egr.flushEgr ti opts window

/-- The memory of a connection that was accepted. -/
def TCPIngress.memory (shared : Shared) : MemEgress where
  mem := .start ⟨fun _ => [], 1⟩ shared
    (if ti.fwd.coalesce then some ti.fwd.coalesceMaxMembers else none)
  calls := 0
  written := []

/-- `handleConn` over memory: the same steps, calling on the egress over memory. -/
def TCPIngress.handleInMemory (shared : Shared) (script : List ReadResult) : Nat → MemEgress
  | 0 => ti.memory shared
  | n + 1 => (ti.handleConn shared script n).calls.foldl (MemEgress.call ti opts window)
      (handleInMemory shared script n)

end Run

section Calls

variable {ti : TCPIngress}

theorem flush_egr (c : Conn ti.reader.State) :
    c.flush.egr = (flushCalls c.pending).foldl (ConnEgress.call ti) c.egr := by
  rw [Conn.flush, flushCalls]
  split <;> rfl

theorem add_egr (c : Conn ti.reader.State) :
    c.add.egr = (if maxTCPBatch ≤ c.pending + 1 then [EgrCall.flush] else []).foldl
      (ConnEgress.call ti) c.egr := by
  rw [Conn.add]
  dsimp only
  split
  · rw [flush_egr, flushCalls, if_pos (Nat.succ_pos _)]
  · rfl

/-- A step does to the egress what its calls do. -/
theorem step_egr (c : Conn ti.reader.State) :
    c.step.egr = c.calls.foldl (ConnEgress.call ti) c.egr := by
  cases hphase : c.phase with
  | running loop =>
      cases hlook : ti.look loop with
      | read =>
          simp only [Conn.step, Conn.calls, hphase, hlook, Conn.read]
          split
          · rfl
          · exact flush_egr c
      | settle next => simp only [Conn.step, Conn.calls, hphase, hlook, List.foldl_nil]
      | hand item next =>
          simp only [Conn.step, Conn.calls, hphase, hlook, List.foldl_cons]
          exact add_egr _
      | close why =>
          simp only [Conn.step, Conn.calls, hphase, hlook]
          rfl
  | lingering loop =>
      simp only [Conn.step, Conn.calls, hphase, Conn.connRead]
      rcases c.script with _ | ⟨result, rest⟩
      · rfl
      · cases result with
        | timeout => exact flush_egr c
        | data chunk => rfl
        | fail => rfl
  | blocked loop =>
      simp only [Conn.step, Conn.calls, hphase, Conn.connRead]
      rcases c.script with _ | ⟨result, rest⟩
      · rfl
      · cases result <;> rfl
  | ended why => simp only [Conn.step, Conn.calls, hphase, List.foldl_nil]

/-- A window may be handed on only what goes out from a buffer of its own. -/
def EgrCall.Safe : EgrCall → Prop
  | .hand (.dispatchClass raw _) .window => ¬ framed raw
  | .hand (.forwardControl _) .window => False
  | _ => True

theorem safe_flushCalls (pending : Nat) : ∀ call ∈ flushCalls pending, call.Safe := by
  intro call hcall
  rw [flushCalls] at hcall
  split at hcall
  · rw [List.mem_singleton.mp hcall]
    trivial
  · cases hcall

/-- What a loop hands on is safe where it lies, if the records of the BEEF loop are not
framed. -/
theorem safe_hand {loop next : LoopState ti.reader.State} {item : Handed}
    (hrecord : ∀ reader rec next, loop = .beef reader → ti.reader.next reader = .object rec next →
      ¬ framed rec) (hlook : ti.look loop = .hand item next) :
    (EgrCall.hand item loop.place).Safe := by
  cases loop with
  | detect buffered => cases item <;> trivial
  | framed buffered => cases item <;> trivial
  | failed why => cases item <;> trivial
  | beef reader =>
      rw [TCPIngress.look] at hlook
      split at hlook
      · cases hlook
      · rename_i rec after hnext
        cases hlook
        exact hrecord reader rec after rfl hnext
      · cases hlook
  | bare reader =>
      rw [TCPIngress.look] at hlook
      split at hlook
      · cases hlook
      · cases hlook
        trivial
      · cases hlook

theorem safe_calls {c : Conn ti.reader.State}
    (hrecord : ∀ reader rec next, c.phase = .running (.beef reader) →
      ti.reader.next reader = .object rec next → ¬ framed rec) :
    ∀ call ∈ c.calls, call.Safe := by
  intro call hcall
  rw [Conn.calls] at hcall
  split at hcall
  · rename_i loop hphase
    split at hcall
    · split at hcall
      · cases hcall
      · exact safe_flushCalls _ call hcall
    · cases hcall
    · rename_i item next hlook
      rcases List.mem_cons.mp hcall with rfl | hflush
      · refine safe_hand (fun reader rec next hloop hnext => ?_) hlook
        exact hrecord reader rec next (hloop ▸ hphase) hnext
      · split at hflush
        · rw [List.mem_singleton.mp hflush]
          trivial
        · cases hflush
    · rw [List.mem_singleton.mp hcall]
      trivial
  · split at hcall
    · exact safe_flushCalls _ call hcall
    · cases hcall
  · cases hcall

end Calls

section Refinement

variable {ti : TCPIngress} {opts : EgressOpts}

theorem Mem.Represents.shows {fw : Forwarder} {slots : List Nat} {idle : List (Nat × Bytes)}
    {s : MemState} {st : FwState} (hrep : Represents fw opts slots idle s st) : s.shows = st := by
  have hchains := congrArg Shared.chains hrep.shared
  have hstores := congrArg Shared.stores hrep.shared
  have hlimit := congrArg Shared.beefLimit hrep.shared
  have hbridging := congrArg Shared.bridging hrep.shared
  rcases st with ⟨chains, stores, beefLimit, bridging, queue, coal⟩
  cases hchains
  cases hstores
  cases hlimit
  cases hbridging
  rw [MemState.shows, ← hrep.queue, ← hrep.coal]

/-- The egress over memory shows the egress of the connection; only the window is known
to be idle. -/
structure Shows (ti : TCPIngress) (opts : EgressOpts) (m : MemEgress) (egr : ConnEgress) :
    Prop where
  represents : ∃ contents, Mem.Represents ti.fwd opts [0] [(0, contents)] m.mem egr.st
  calls : m.calls = egr.calls
  written : m.written = egr.flushed.map (Mem.written opts)

theorem Shows.enter (window : Nat → Bytes × Bytes) {m : MemEgress} {egr : ConnEgress}
    (hshows : Shows ti opts m egr) :
    Mem.Represents ti.fwd opts [0] [(0, (window m.calls).1 ++ (window m.calls).2)]
      (m.enter ti window) (egr.enter ti) := by
  obtain ⟨contents, hrep⟩ := hshows.represents
  have hothers := hrep.others fun _ => ti.others egr.calls egr.st
  rw [MemEgress.enter, ConnEgress.enter, hrep.shows, ← hshows.calls]
  exact (hshows.calls ▸ hothers).store _

theorem dispatch_made (hdec : DecodeLaws ti.env) (hlaws : FragmentLaws ti.env)
    (hpay : PayloadLaws ti.env) (now : Time) (item : Handed) {idle : List (Nat × Bytes)}
    {buf : Nat} {s : MemState} {st : FwState}
    (hrep : Mem.Represents ti.fwd opts [0] ((buf, [] ++ item.raw ++ []) :: idle) s st) :
    Mem.Represents ti.fwd opts [0] idle
      (ti.dispatchAt opts now ⟨buf, 0, item.raw.length⟩ item s).2 (ti.dispatch now item st).2 := by
  cases item with
  | dispatchClass raw cls =>
      exact (Mem.agrees_dispatchClass hdec hlaws hpay (some ti.remote) now cls s st hrep).2
  | forwardControl raw => exact (Mem.agrees_enqueue rfl _ 0 _ false s st hrep).2
  | dispatchBareTx tx =>
      exact (Mem.agrees_dispatchBareTx hdec hlaws hpay ⟨buf, 0, tx.length⟩ (some ti.remote) s st
        ⟨hrep, hrep.read⟩).2.forget

/-- An item in the window: the window stays idle. -/
theorem dispatch_window (hdec : DecodeLaws ti.env) (hlaws : FragmentLaws ti.env)
    (hpay : PayloadLaws ti.env) (now : Time) {item : Handed}
    (hsafe : (EgrCall.hand item .window).Safe) {raw : Slice} {idle : List (Nat × Bytes)}
    {s : MemState} {st : FwState} (hrep : Mem.Represents ti.fwd opts [0] idle s st)
    (hread : s.heap.read raw = item.raw) :
    Mem.Represents ti.fwd opts [0] idle (ti.dispatchAt opts now raw item s).2
      (ti.dispatch now item st).2 := by
  cases item with
  | dispatchClass rec cls =>
      exact (Mem.agrees_dispatchClass_unframed hdec hlaws hpay hsafe raw (some ti.remote) now cls
        s st ⟨hrep, hread⟩).2
  | forwardControl control => exact hsafe.elim
  | dispatchBareTx tx =>
      exact (Mem.agrees_dispatchBareTx hdec hlaws hpay raw (some ti.remote) s st
        ⟨hrep, hread⟩).2

theorem Shows.hand (hdec : DecodeLaws ti.env) (hlaws : FragmentLaws ti.env)
    (hpay : PayloadLaws ti.env) (window : Nat → Bytes × Bytes) {m : MemEgress} {egr : ConnEgress}
    (hshows : Shows ti opts m egr) {item : Handed} {place : Place}
    (hsafe : (EgrCall.hand item place).Safe) :
    Shows ti opts (m.hand ti opts window item place) (egr.hand ti item) := by
  have hrep := hshows.enter window
  refine ⟨?_, congrArg Nat.succ hshows.calls, hshows.written⟩
  rw [MemEgress.hand, ConnEgress.hand, ← hshows.calls]
  cases place with
  | made => exact ⟨_, dispatch_made hdec hlaws hpay _ item (hrep.alloc_lying item.raw)⟩
  | window =>
      have hlaid := hrep.store ((window m.calls).1 ++ item.raw ++ (window m.calls).2)
      have hread : (layItem (window m.calls) item.raw (m.enter ti window) .window).2.heap.read
          (layItem (window m.calls) item.raw (m.enter ti window) .window).1 = item.raw :=
        Heap.read_between Heap.store_buffer_self
      exact ⟨_, dispatch_window hdec hlaws hpay _ hsafe hlaid hread⟩

theorem Shows.flushEgr (window : Nat → Bytes × Bytes) {m : MemEgress} {egr : ConnEgress}
    (hshows : Shows ti opts m egr) :
    Shows ti opts (m.flushEgr ti opts window) (egr.flushEgr ti) := by
  obtain ⟨hshown, hflushed, _⟩ := (hshows.enter window).flushAll ti.env
  refine ⟨⟨_, hflushed⟩, congrArg Nat.succ hshows.calls, ?_⟩
  rw [MemEgress.flushEgr, ConnEgress.flushEgr, List.map_append, ← hshows.written]
  exact congrArg (fun written => m.written ++ [written]) hshown

theorem Shows.run_calls (hdec : DecodeLaws ti.env) (hlaws : FragmentLaws ti.env)
    (hpay : PayloadLaws ti.env) (window : Nat → Bytes × Bytes) {calls : List EgrCall}
    (hsafe : ∀ call ∈ calls, call.Safe) {m : MemEgress} {egr : ConnEgress}
    (hshows : Shows ti opts m egr) :
    Shows ti opts (calls.foldl (MemEgress.call ti opts window) m)
      (calls.foldl (ConnEgress.call ti) egr) := by
  induction calls generalizing m egr with
  | nil => exact hshows
  | cons call rest ih =>
      have hrest : ∀ later ∈ rest, later.Safe := fun later hlater =>
        hsafe later (List.mem_cons_of_mem call hlater)
      cases call with
      | hand item place =>
          exact ih hrest (hshows.hand hdec hlaws hpay window (hsafe _ List.mem_cons_self))
      | flush => exact ih hrest (hshows.flushEgr window)

theorem Mem.represents_window {fw : Forwarder} {st : FwState} {armed : Option Int}
    (hqueue : st.queue = []) (hcoal : st.coal = armed.map newCoalBuffer) :
    Mem.Represents fw opts [0] [(0, [])] (.start ⟨fun _ => [], 1⟩ st.shared armed) st := by
  refine Mem.represents_start ?_ ?_ ?_ ?_ hqueue hcoal
  · intro entry hentry
    rw [List.mem_singleton.mp hentry]
  · exact List.nodup_singleton 0
  · intro buf hbuf
    rw [List.mem_singleton.mp hbuf]
    exact Nat.zero_lt_one
  · intro buf hbuf
    rw [List.mem_singleton.mp hbuf]
    exact Nat.zero_lt_one

theorem shows_memory (ti : TCPIngress) (opts : EgressOpts) (shared : Shared) :
    Shows ti opts (ti.memory shared) ⟨ti.newEgress shared, 0, [], []⟩ := by
  have hcoal : (ti.newEgress shared).coal =
      (if ti.fwd.coalesce then some ti.fwd.coalesceMaxMembers else none).map newCoalBuffer := by
    rw [TCPIngress.newEgress]
    dsimp only
    split <;> rfl
  exact ⟨⟨[], Mem.represents_window rfl hcoal⟩, rfl, rfl⟩

/-- Whatever the peer sends, however it is read and wherever the reader leaves its objects
in its window, every flush of a connection puts out the datagrams the forwarder made of
the items handed on, and their copies, as they were when they were handed on. -/
theorem connection_unaliased (hdec : DecodeLaws ti.env) (hlaws : FragmentLaws ti.env)
    (hpay : PayloadLaws ti.env) (opts : EgressOpts) (window : Nat → Bytes × Bytes)
    (shared : Shared) (script : List ReadResult)
    (hrecord : ∀ n reader rec next,
      (ti.handleConn shared script n).phase = .running (.beef reader) →
        ti.reader.next reader = .object rec next → ¬ framed rec) (n : Nat) :
    (ti.handleInMemory opts window shared script n).written =
      (ti.handleConn shared script n).egr.flushed.map (Mem.written opts) := by
  have hrun : Shows ti opts (ti.handleInMemory opts window shared script n)
      (ti.handleConn shared script n).egr := by
    induction n with
    | zero => exact shows_memory ti opts shared
    | succ n ih =>
        have hsafe := safe_calls (hrecord n)
        have hstep : ti.handleConn shared script (n + 1) = (ti.handleConn shared script n).step :=
          Function.iterate_succ_apply' _ _ _
        rw [TCPIngress.handleInMemory, hstep, step_egr]
        exact ih.run_calls hdec hlaws hpay window hsafe
  exact hrun.written

end Refinement

section Sample

open Reference

/-- The record tag and the magic do not go together. -/
theorem not_framed_of_tag {raw : Bytes} (htag : uint16At raw 0 = beefRecordTag) : ¬ framed raw := by
  rintro ⟨hlength, hmagic⟩
  match raw, hlength with
  | a :: b :: c :: d :: rest, _ =>
      have htag' := congrArg UInt16.toNat htag
      have hmagic' := congrArg UInt32.toNat hmagic
      have ha := a.toNat_lt
      have hb := b.toNat_lt
      have hc := c.toNat_lt
      have hd := d.toNat_lt
      simp [uint16At, uint32At, field, readNat, beefRecordTag, magicBSV] at htag' hmagic'
      omega

theorem framed_of_take {raw : Bytes} {n : Nat} (hframed : framed (raw.take n)) : framed raw := by
  obtain ⟨hlength, hmagic⟩ := hframed
  rw [List.length_take] at hlength
  refine ⟨by omega, ?_⟩
  rwa [uint32At, field, List.drop_zero, List.take_take, Nat.min_eq_left (by omega)] at hmagic

/-- The records of the reference reader carry their tag. -/
theorem objReader_unframed {reader next : Reference.objReader.State} {rec : Bytes}
    (hnext : Reference.objReader.next reader = .object rec next) : ¬ framed rec := by
  rcases reader with _ | ⟨maximum, buffered⟩
  · cases hnext
  · simp only [Reference.objReader] at hnext
    split at hnext
    · cases hnext
    · rename_i record n hrecord
      split at hnext
      · cases hnext
        exact fun hframed =>
          not_framed_of_tag (decodeBEEFRecord_some hrecord).2.1 (framed_of_take hframed)
      · cases hnext

def recordScript : List ReadResult :=
  [.data ⟨sampleRecord (sampleObject 1) ++ sampleRecord (sampleObject 2), by decide⟩]

/-- The fragments of both records are queued while the window moves on. -/
theorem connection_unaliased_sample :
    ((sampleIngress beefForwarder 0).handleInMemory sampleOpts (fun _ => ([1], [2, 3]))
          state.shared recordScript 9).written =
        ((sampleIngress beefForwarder 0).handleConn state.shared recordScript 9).egr.flushed.map
          (Mem.written sampleOpts) ∧
      ((sampleIngress beefForwarder 0).handleConn state.shared recordScript 9).egr.flushed.map
        List.length = [4, 0] := by
  refine ⟨?_, by decide +kernel⟩
  have hdec : DecodeLaws (sampleIngress beefForwarder 0).env := decodeLaws
  have hlaws : FragmentLaws (sampleIngress beefForwarder 0).env := fragmentLaws
  have hpay : PayloadLaws (sampleIngress beefForwarder 0).env := payloadLaws
  exact connection_unaliased hdec hlaws hpay sampleOpts _ state.shared recordScript
    (fun n reader rec next _ hnext => objReader_unframed hnext) 9

end Sample

end ShardProxy
