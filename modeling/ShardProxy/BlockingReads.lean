/-
Nothing waits behind a blocking read.  Whatever a connection's grammar, its
segments and its timeouts, it is in a read without a deadline only when its
egress is empty; it lingers only when frames are pending, and a timeout flushes
them.  When the goroutine ends, what the handed items queued has been flushed
once and in order, and what waited for bundles has left in them, unless a
transaction too long for a bundle was among it.
-/
import ShardProxy.FramedItems

namespace ShardProxy

open ByteField Dispenser

/-- Neither the queue nor the coalescing buffer holds anything. -/
def FwState.Emptied (st : FwState) : Prop :=
  st.queue = [] ∧ ∀ coal, st.coal = some coal → coal.buckets = []

/-- What waits in a worker's buffer, if it has one. -/
def waitingIn (fw : Forwarder) (coal : Option CoalBuffer) : List Parcel :=
  (coal.map fun coal => waiting fw coal.buckets).getD []

/-- What an item put into the queue. -/
def Handover.queued (h : Handover) : List EnqueueReq :=
  h.after.queue.drop h.before.queue.length

/-- What it put into the buffer. -/
def Handover.waits (fw : Forwarder) (h : Handover) : List Parcel :=
  (waitingIn fw h.after.coal).diff (waitingIn fw h.before.coal)

/-- One flush: what was queued, and the bundles of what waited. -/
structure Flushed where
  queued : List EnqueueReq
  bundles : List SentBundle

def Flushed.datagrams (flush : Flushed) : List EnqueueReq :=
  flush.queued ++ flush.bundles.map SentBundle.req

def Flushed.parcels (fw : Forwarder) (flush : Flushed) : List Parcel :=
  flush.bundles.flatMap (SentBundle.parcels fw)

section Properties

variable (ti : TCPIngress)

/-- The transaction frame an item may come to. -/
def TCPIngress.FrameOf : Handed → Bytes → Prop
  | .dispatchClass raw _, frame => TxFrame ti.env ti.fwd raw frame
  | .forwardControl _, _ => False
  | .dispatchBareTx tx, frame => bareTxGates ti.env ti.fwd tx = .ok frame

/-- The item is no transaction that waits and is too long for a member. -/
def TCPIngress.Encodable (item : Handed) : Prop :=
  ti.fwd.coalesce = true → ∀ frame f, ti.FrameOf item frame → ti.env.decode frame = some f →
    f.version = frameVerV2 → Eligible ti.env ti.fwd f.payload → f.payload.length < 2 ^ 16

/-- What the handed items put on the egress was flushed, all of it and once: what
they queued in order, and what waited in bundles that can be read. -/
structure FlushedOnce (decodeBundle : Bytes → Option Bundle) (egr : ConnEgress) : Prop where
  flushes : ∃ flushes : List Flushed, egr.flushed = flushes.map Flushed.datagrams ∧
    (∀ flush ∈ flushes, ∀ sent ∈ flush.bundles, sent.Sound ti.env ti.fwd decodeBundle) ∧
    flushes.flatMap Flushed.queued = egr.handed.flatMap Handover.queued ∧
    (flushes.flatMap (Flushed.parcels ti.fwd)).Perm (egr.handed.flatMap (Handover.waits ti.fwd))
  ordered : ti.fwd.coalesce = false →
    egr.flushed.flatten = egr.handed.flatMap Handover.queued

variable {ti}

/-- A read without a deadline has nothing behind it, a read with frames pending
has the linger deadline and a timeout flushes them, and the count is bounded. -/
structure Conn.Attended (c : Conn ti.reader.State) : Prop where
  blocked : ∀ loop, c.phase = .blocked loop → c.pending = 0 ∧ c.egr.st.Emptied
  deadline : ∀ loop, c.Reading loop → 0 < c.pending → c.phase = .lingering loop ∧ 0 < ti.linger
  timeout : ∀ loop rest, c.phase = .lingering loop → c.script = .timeout :: rest →
    c.step.phase = .blocked loop ∧ c.step.egr = c.egr.flushEgr ti ∧ c.step.pending = 0 ∧
      c.step.egr.st.Emptied
  below : c.pending < maxTCPBatch
  ended : ∀ why, c.phase = .ended why → c.egr.st.Emptied

end Properties

section Emptying

variable {ti : TCPIngress}

theorem ConnEgress.flushEgr_emptied (egr : ConnEgress) : (egr.flushEgr ti).st.Emptied := by
  refine ⟨rfl, ?_⟩
  intro coal hcoal
  simp only [ConnEgress.flushEgr, flushCoalescedFw] at hcoal
  split at hcoal
  · rename_i hnone
    exact absurd (hnone.symm.trans hcoal) (by simp)
  · obtain rfl := Option.some.inj hcoal
    rfl

/-- The invariant of the batcher: a count of zero means an empty egress. -/
structure Conn.Counted (c : Conn ti.reader.State) : Prop where
  idle : c.pending = 0 → c.egr.st.Emptied
  below : c.pending < maxTCPBatch
  blocked : ∀ loop, c.phase = .blocked loop → c.pending = 0
  lingering : ∀ loop, c.phase = .lingering loop → 0 < ti.linger ∧ 0 < c.pending
  ended : ∀ why, c.phase = .ended why → c.egr.st.Emptied

theorem Conn.flush_pending (c : Conn ti.reader.State) : c.flush.pending = 0 := by
  rw [Conn.flush]
  split
  · rfl
  · exact Nat.eq_zero_of_not_pos ‹_›

theorem Conn.flush_emptied {c : Conn ti.reader.State}
    (hidle : c.pending = 0 → c.egr.st.Emptied) : c.flush.egr.st.Emptied := by
  rw [Conn.flush]
  split
  · exact c.egr.flushEgr_emptied
  · exact hidle (Nat.eq_zero_of_not_pos ‹_›)

/-- Adding to the count flushes, or leaves it above zero and below its limit. -/
theorem Conn.add_cases (c : Conn ti.reader.State) :
    (c.add.pending = 0 ∧ c.add.egr = c.egr.flushEgr ti) ∨
      (c.add.pending = c.pending + 1 ∧ c.pending + 1 < maxTCPBatch ∧ c.add.egr = c.egr) := by
  rw [Conn.add]
  by_cases hfull : maxTCPBatch ≤ c.pending + 1
  · left
    simp only [hfull, ↓reduceIte]
    refine ⟨Conn.flush_pending _, ?_⟩
    rw [Conn.flush]
    simp
  · right
    simp only [hfull, ↓reduceIte]
    exact ⟨trivial, Nat.not_le.mp hfull, trivial⟩

theorem Conn.Counted.of_running {c : Conn ti.reader.State} {loop : LoopState ti.reader.State}
    (hphase : c.phase = .running loop) (hidle : c.pending = 0 → c.egr.st.Emptied)
    (hbelow : c.pending < maxTCPBatch) : c.Counted := by
  refine ⟨hidle, hbelow, ?_, ?_, ?_⟩ <;>
    · intro _ hother
      cases hphase.symm.trans hother

theorem Conn.Counted.of_blocked {c : Conn ti.reader.State} {loop : LoopState ti.reader.State}
    (hphase : c.phase = .blocked loop) (hzero : c.pending = 0) (hempty : c.egr.st.Emptied) :
    c.Counted := by
  refine ⟨fun _ => hempty, ?_, fun _ _ => hzero, ?_, fun _ _ => hempty⟩
  · rw [hzero]
    decide
  · intro _ hother
    cases hphase.symm.trans hother

theorem Conn.Counted.step {c next : Conn ti.reader.State} (hcounted : c.Counted)
    (hstep : ConnStep c next) : next.Counted := by
  have hidle := hcounted.idle
  have hbelow := hcounted.below
  cases hstep with
  | settles hphase hlook => exact .of_running rfl hidle hbelow
  | hands hphase hlook =>
      rename_i loop next item
      rcases Conn.add_cases { c with egr := c.egr.hand ti item } with
        ⟨hpending, hegr⟩ | ⟨hpending, hlimit, _⟩
      · apply Conn.Counted.of_running rfl
        · intro _
          change (Conn.add _).egr.st.Emptied
          rw [hegr]
          exact ConnEgress.flushEgr_emptied _
        · change (Conn.add _).pending < maxTCPBatch
          rw [hpending]
          decide
      · apply Conn.Counted.of_running rfl
        · intro hzero
          exact absurd (hpending.symm.trans hzero) (Nat.succ_ne_zero _)
        · change (Conn.add _).pending < maxTCPBatch
          rw [hpending]
          exact hlimit
  | lingers hphase hlook hlinger hpending =>
      refine ⟨hidle, hbelow, ?_, fun _ _ => ⟨hlinger, hpending⟩, ?_⟩ <;>
        · intro _ hother
          cases hother
  | blocks hphase hlook => exact .of_blocked rfl c.flush_pending (Conn.flush_emptied hidle)
  | closes hphase hlook =>
      have hempty : (c.egr.flushEgr ti).st.Emptied := c.egr.flushEgr_emptied
      refine ⟨fun _ => hempty, hbelow, ?_, ?_, fun _ _ => hempty⟩ <;>
        · intro _ hother
          cases hother
  | fails hread hscript => exact .of_running rfl hidle hbelow
  | receives hread hscript => exact .of_running rfl hidle hbelow
  | timesOut hphase hscript => exact .of_blocked rfl c.flush_pending (Conn.flush_emptied hidle)
  | waits hphase hscript =>
      exact .of_blocked hphase (hcounted.blocked _ hphase) (hidle (hcounted.blocked _ hphase))
  | ended hphase => exact hcounted

theorem Conn.Counted.accept (shared : Shared) (script : List ReadResult) :
    (ti.accept shared script).Counted := by
  apply Conn.Counted.of_running rfl
  · intro _
    refine ⟨rfl, ?_⟩
    intro coal hcoal
    simp only [TCPIngress.accept, TCPIngress.newEgress] at hcoal
    split at hcoal
    · obtain rfl := Option.some.inj hcoal
      exact newCoalBuffer_buckets _
    · cases hcoal
  · exact (by decide : 0 < maxTCPBatch)

theorem Conn.Counted.attended {c : Conn ti.reader.State} (hcounted : c.Counted) : c.Attended where
  blocked loop hphase :=
    ⟨hcounted.blocked loop hphase, hcounted.idle (hcounted.blocked loop hphase)⟩
  deadline loop hread hpending := by
    rcases hread with hphase | hphase
    · exact ⟨hphase, (hcounted.lingering loop hphase).1⟩
    · exact absurd (hcounted.blocked loop hphase) (Nat.pos_iff_ne_zero.mp hpending)
  timeout loop rest hphase hscript := by
    have hpending := (hcounted.lingering loop hphase).2
    have hstep : c.step = { c with
        phase := .blocked loop
        pending := 0
        egr := c.egr.flushEgr ti
        script := rest } := by
      rw [Conn.step, hphase]
      simp only [Conn.connRead, hscript, Conn.flush, hpending, ↓reduceIte]
    rw [hstep]
    exact ⟨rfl, rfl, rfl, c.egr.flushEgr_emptied⟩
  below := hcounted.below
  ended := hcounted.ended

end Emptying

section Taking

variable {env : Env} {fw : Forwarder}

theorem Outgoing.send_adds (o : Outgoing fw) (st : FwState) :
    ∃ new, (o.send env st).2.queue = st.queue ++ new ∧ (o.send env st).2.coal = st.coal := by
  by_cases hover : o.Overflows
  · rw [Outgoing.send_overflow o hover]
    exact ⟨[], (List.append_nil _).symm, rfl⟩
  · rw [Outgoing.send_eq_program o st hover]
    exact ⟨_, rfl, rfl⟩

/-- What a call does to the egress: it adds to the queue, or a member waits. -/
inductive Taken (env : Env) (fw : Forwarder) (frameOf : Bytes → Prop) (before after : FwState) :
    Prop where
  | queued {new : List EnqueueReq} (hqueue : after.queue = before.queue ++ new)
      (hcoal : after.coal = before.coal)
  | waits {frame : Bytes} {f : Frame} {flow : ChainKey} {coal : CoalBuffer}
      (hcoalesce : fw.coalesce = true) (hframe : frameOf frame)
      (hdecode : env.decode frame = some f) (hversion : f.version = frameVerV2)
      (heligible : Eligible env fw f.payload)
      (hgroup : flow.grp.toNat < 2 ^ 16) (hqueue : after.queue = before.queue)
      (hbefore : before.coal = some coal)
      (hcoal : after.coal = some (coal.add flow ⟨f.txID, f.payload⟩))

theorem Settles.taken {src : NetAddr} {prog : Fw Unit} {P : Action fw → Prop}
    {frameOf : Bytes → Prop} (hprog : Settles env (some src) prog P)
    (htx : ∀ frame f, P (.tx frame f) → frameOf frame ∧ env.decode frame = some f)
    (st : FwState) : Taken env fw frameOf st (prog st).2 := by
  rcases hprog st.ledger with ⟨drop, ledger, hdrop⟩ | ⟨action, ledger, haction, hact⟩
  · rw [hdrop st rfl]
    exact .queued (List.append_nil _).symm rfl
  · rw [hact st rfl]
    by_cases hwaits : action.Waits env (some src) (st.withLedger ledger)
    · cases action with
      | send o => exact absurd hwaits id
      | tx frame f =>
          obtain ⟨hframe, hdecode⟩ := htx frame f haction
          have hsend := emitTx_of_waits env fw frame hwaits
          obtain ⟨_, hversion, hsmall, hcoalesce, hsome, _, hbudget⟩ := hwaits
          obtain ⟨coal, hcoal⟩ := Option.isSome_iff_exists.mp hsome
          have hgroup : (txFlow fw f src).grp.toNat < 2 ^ 16 :=
            Nat.lt_trans (shardIndex_lt fw.engine (fw.engine.groupIndex_lt f.txID)) (by decide)
          rw [Action.act, hsend]
          refine .waits hcoalesce hframe hdecode hversion ⟨hsmall, hbudget⟩ hgroup rfl hcoal ?_
          change Option.map _ st.coal = _
          rw [show st.coal = some coal from hcoal]
          rfl
    · rw [Action.act_of_not_waits hwaits]
      obtain ⟨new, hqueue, hcoal⟩ :=
        (action.out (st.withLedger ledger).bridging (some src)).send_adds (st.withLedger ledger)
      exact .queued hqueue hcoal

variable {ti : TCPIngress}

/-- Handing an item on adds to the queue, or lets its transaction wait. -/
theorem TCPIngress.dispatch_taken (now : Time) (item : Handed) (st : FwState) :
    Taken ti.env ti.fwd (ti.FrameOf item) st (ti.dispatch now item st).2 := by
  cases item with
  | dispatchClass raw cls =>
      refine (dispatchClass_settles ti.env ti.fwd raw (some ti.remote) now cls).taken ?_ st
      intro frame f hadmits
      cases hadmits with
      | tx hframe hgates => exact ⟨hframe, txGates_ok hgates⟩
  | forwardControl raw =>
      have hrun : ti.dispatch now (.forwardControl raw) st = enqueue _ st := rfl
      rw [hrun, enqueue_apply]
      exact .queued rfl rfl
  | dispatchBareTx tx =>
      have hsettles : Settles ti.env (some ti.remote)
          (dispatchBareTx ti.env ti.fwd tx (some ti.remote)) fun action : Action ti.fwd =>
          ∃ frame f,
            action = .tx frame f ∧ ti.FrameOf (.dispatchBareTx tx) frame ∧
              ti.env.decode frame = some f := by
        refine Settles.bind (LedgerOnly.gate _) ?_
        intro frame hgates
        exact process_settles fun f hchecks => ⟨frame, f, rfl, hgates, txGates_ok hchecks⟩
      refine hsettles.taken ?_ st
      rintro _ _ ⟨frame, f, hsame, hframe, hdecode⟩
      cases hsame
      exact ⟨hframe, hdecode⟩

end Taking

section Accounts

variable {ti : TCPIngress} {decodeBundle : Bytes → Option Bundle}

variable (ti decodeBundle) in
/-- The accounts of a connection's egress: what was flushed and what is still
there is what the handed items put there. -/
structure ConnEgress.Balanced (egr : ConnEgress) : Prop where
  flushes : ∃ flushes : List Flushed, egr.flushed = flushes.map Flushed.datagrams ∧
    (∀ flush ∈ flushes, ∀ sent ∈ flush.bundles, sent.Sound ti.env ti.fwd decodeBundle) ∧
    flushes.flatMap Flushed.queued ++ egr.st.queue = egr.handed.flatMap Handover.queued ∧
    (flushes.flatMap (Flushed.parcels ti.fwd) ++ waitingIn ti.fwd egr.st.coal).Perm
      (egr.handed.flatMap (Handover.waits ti.fwd))
  buffer : ∀ coal, egr.st.coal = some coal → coal.Sound ti.env ti.fwd

theorem Handover.waits_perm {fw : Forwarder} {h : Handover} {new : List Parcel}
    (hafter : (waitingIn fw h.after.coal).Perm (waitingIn fw h.before.coal ++ new)) :
    (h.waits fw).Perm new := by
  rw [← Multiset.coe_eq_coe, Handover.waits, ← Multiset.coe_sub, Multiset.coe_eq_coe.mpr hafter,
    ← Multiset.coe_add, add_tsub_cancel_left]

/-- What an item adds to the queue it adds to what the items queued. -/
theorem ConnEgress.queued_hand {egr : ConnEgress} {item : Handed} {new front : List EnqueueReq}
    (hqueue : (egr.hand ti item).st.queue = egr.st.queue ++ new)
    (hfront : front ++ egr.st.queue = egr.handed.flatMap Handover.queued) :
    front ++ (egr.hand ti item).st.queue =
      (egr.hand ti item).handed.flatMap Handover.queued := by
  have hadded : Handover.queued ⟨item, egr.enter ti, (egr.hand ti item).st⟩ = new := by
    rw [Handover.queued, hqueue]
    exact List.drop_left
  have hhanded : (egr.hand ti item).handed =
      egr.handed ++ [⟨item, egr.enter ti, (egr.hand ti item).st⟩] := rfl
  rw [hhanded, List.flatMap_append, List.flatMap_singleton, hadded, ← hfront, hqueue,
    List.append_assoc]

/-- What an item adds to the buffer it adds to what waited for the items. -/
theorem ConnEgress.waits_hand {egr : ConnEgress} {item : Handed} {new front : List Parcel}
    (hwaits : (waitingIn ti.fwd (egr.hand ti item).st.coal).Perm
      (waitingIn ti.fwd egr.st.coal ++ new))
    (hfront : (front ++ waitingIn ti.fwd egr.st.coal).Perm
      (egr.handed.flatMap (Handover.waits ti.fwd))) :
    (front ++ waitingIn ti.fwd (egr.hand ti item).st.coal).Perm
      ((egr.hand ti item).handed.flatMap (Handover.waits ti.fwd)) := by
  have hadded : (Handover.waits ti.fwd ⟨item, egr.enter ti, (egr.hand ti item).st⟩).Perm new :=
    Handover.waits_perm hwaits
  have hhanded : (egr.hand ti item).handed =
      egr.handed ++ [⟨item, egr.enter ti, (egr.hand ti item).st⟩] := rfl
  rw [hhanded, List.flatMap_append, List.flatMap_singleton]
  refine List.Perm.trans ?_ (hfront.append hadded.symm)
  rw [List.append_assoc]
  exact hwaits.append_left front

theorem ConnEgress.Balanced.hand {egr : ConnEgress} (hegr : egr.Balanced ti decodeBundle)
    {item : Handed} (hitem : ti.Encodable item) : (egr.hand ti item).Balanced ti decodeBundle := by
  obtain ⟨⟨flushes, hflushed, hbundles, hqueued, hwaits⟩, hbuffer⟩ := hegr
  have htaken : Taken ti.env ti.fwd (ti.FrameOf item) (egr.enter ti) (egr.hand ti item).st :=
    ti.dispatch_taken (ti.clock egr.calls) item (egr.enter ti)
  cases htaken with
  | queued hqueue hcoal =>
      have hkept : (egr.hand ti item).st.coal = egr.st.coal := hcoal
      have hnone : (waitingIn ti.fwd (egr.hand ti item).st.coal).Perm
          (waitingIn ti.fwd egr.st.coal ++ []) := by
        rw [hkept, List.append_nil]
      refine ⟨⟨flushes, hflushed, hbundles, ConnEgress.queued_hand hqueue hqueued,
        ConnEgress.waits_hand hnone hwaits⟩, ?_⟩
      rw [hkept]
      exact hbuffer
  | @waits frame f flow coal hcoalesce hframe hdecode hversion heligible hgroup hqueue hbefore
      hcoal =>
      have hshort := hitem hcoalesce frame f hframe hdecode hversion heligible
      have hhere : egr.st.coal = some coal := hbefore
      have hnothing : (egr.hand ti item).st.queue = egr.st.queue ++ [] :=
        hqueue.trans (List.append_nil _).symm
      have hone : (waitingIn ti.fwd (egr.hand ti item).st.coal).Perm
          (waitingIn ti.fwd egr.st.coal ++ [Member.parcel ti.fwd flow ⟨f.txID, f.payload⟩]) := by
        rw [hcoal, hhere]
        exact waiting_addMember ti.fwd flow ⟨f.txID, f.payload⟩ coal.buckets
      refine ⟨⟨flushes, hflushed, hbundles, ConnEgress.queued_hand hnothing hqueued,
        ConnEgress.waits_hand hone hwaits⟩, ?_⟩
      intro next hnext
      rw [hcoal] at hnext
      obtain rfl := Option.some.inj hnext
      exact (hbuffer coal hhere).add hgroup ⟨heligible.2, hshort⟩

/-- A flush takes the queue, and the bundles of what waits. -/
theorem ConnEgress.flushEgr_eq {egr : ConnEgress} (hlaws : BundleLaws ti.env)
    (hcodec : BundleCodec ti.env decodeBundle)
    (hbuffer : ∀ coal, egr.st.coal = some coal → coal.Sound ti.env ti.fwd) :
    ∃ bundles : List SentBundle,
      (egr.flushEgr ti).flushed =
          egr.flushed ++ [Flushed.datagrams ⟨egr.st.queue, bundles⟩] ∧
        (∀ sent ∈ bundles, sent.Sound ti.env ti.fwd decodeBundle) ∧
        bundles.flatMap (SentBundle.parcels ti.fwd) = waitingIn ti.fwd egr.st.coal ∧
        (egr.flushEgr ti).st.coal = egr.st.coal.map CoalBuffer.reset := by
  have hcoal : (egr.enter ti).coal = egr.st.coal := rfl
  cases hst : egr.st.coal with
  | none =>
      rw [hst] at hcoal
      refine ⟨[], ?_, ?_, rfl, ?_⟩
      · simp only [ConnEgress.flushEgr, flushCoalescedFw, hcoal, Flushed.datagrams, List.map_nil,
          List.append_nil]
        rfl
      · intro sent hsent
        cases hsent
      · simp only [ConnEgress.flushEgr, flushCoalescedFw, hcoal, Option.map_none]
  | some coal =>
      rw [hst] at hcoal
      have hsound := hbuffer coal hst
      obtain ⟨bundles, houtputs, hbundles, hall, _⟩ := flushBuckets_sent hcodec hlaws
        coal.maxMembers_pos hsound.groups
        (fun bk hbk members hmembers => hsound.packable hbk hmembers) (egr.enter ti).chains
      refine ⟨bundles, ?_, hbundles, hall, ?_⟩
      · simp only [ConnEgress.flushEgr, flushCoalescedFw, hcoal, flushCoalesced, houtputs,
          Flushed.datagrams]
        rfl
      · simp only [ConnEgress.flushEgr, flushCoalescedFw, hcoal, Option.map_some]

theorem ConnEgress.Balanced.flushEgr {egr : ConnEgress} (hlaws : BundleLaws ti.env)
    (hcodec : BundleCodec ti.env decodeBundle) (hegr : egr.Balanced ti decodeBundle) :
    (egr.flushEgr ti).Balanced ti decodeBundle := by
  obtain ⟨⟨flushes, hflushed, hbundles, hqueued, hwaits⟩, hbuffer⟩ := hegr
  obtain ⟨bundles, hnew, hsound, hparcels, hcoal⟩ := egr.flushEgr_eq hlaws hcodec hbuffer
  constructor
  · refine ⟨flushes ++ [⟨egr.st.queue, bundles⟩], ?_, ?_, ?_, ?_⟩
    · rw [hnew, hflushed, List.map_append]
      rfl
    · intro flush hflush
      rcases List.mem_append.mp hflush with hold | hlast
      · exact hbundles flush hold
      · obtain rfl := List.mem_singleton.mp hlast
        exact hsound
    · have hnone : (egr.flushEgr ti).st.queue = [] := rfl
      rw [hnone, List.append_nil, List.flatMap_append, List.flatMap_singleton]
      exact hqueued
    · have hempty : waitingIn ti.fwd (egr.flushEgr ti).st.coal = [] := by
        rw [hcoal]
        cases egr.st.coal <;> rfl
      rw [hempty, List.append_nil, List.flatMap_append, List.flatMap_singleton, Flushed.parcels,
        hparcels]
      exact hwaits
  · intro coal hsome
    rw [hcoal] at hsome
    obtain ⟨old, hold, rfl⟩ := Option.map_eq_some_iff.mp hsome
    exact (hbuffer old hold).reset

variable (ti) in
theorem ConnEgress.Balanced.new (shared : Shared) :
    ConnEgress.Balanced ti decodeBundle ⟨ti.newEgress shared, 0, [], []⟩ := by
  have hcoal : (ti.newEgress shared).coal = none ∨
      (ti.newEgress shared).coal = some (newCoalBuffer ti.fwd.coalesceMaxMembers) := by
    rw [TCPIngress.newEgress]
    cases ti.fwd.coalesce
    · exact Or.inl rfl
    · exact Or.inr rfl
  constructor
  · refine ⟨[], rfl, by simp, rfl, ?_⟩
    rcases hcoal with hnone | hsome
    · rw [hnone]
      exact List.Perm.refl _
    · rw [hsome]
      exact List.Perm.of_eq (congrArg (waiting ti.fwd) (newCoalBuffer_buckets _))
  · intro coal hbuffer
    rcases hcoal with hnone | hsome
    · cases hnone.symm.trans hbuffer
    · obtain rfl := Option.some.inj (hsome.symm.trans hbuffer)
      exact CoalBuffer.Sound.new ti.env ti.fwd

/-- Without a buffer, what was flushed and what is queued is what the handed
items queued, in their order. -/
structure ConnEgress.InOrder (egr : ConnEgress) : Prop where
  coal : egr.st.coal = none
  flushed : egr.flushed.flatten ++ egr.st.queue = egr.handed.flatMap Handover.queued

theorem ConnEgress.InOrder.hand {egr : ConnEgress} (hegr : egr.InOrder) (item : Handed) :
    (egr.hand ti item).InOrder := by
  have hcoal : (egr.enter ti).coal = none := hegr.coal
  have htaken : Taken ti.env ti.fwd (ti.FrameOf item) (egr.enter ti) (egr.hand ti item).st :=
    ti.dispatch_taken (ti.clock egr.calls) item (egr.enter ti)
  cases htaken with
  | queued hqueue hkept =>
      exact ⟨hkept.trans hcoal, ConnEgress.queued_hand hqueue hegr.flushed⟩
  | waits _ _ _ _ _ _ _ hsome _ => cases hcoal.symm.trans hsome

theorem ConnEgress.InOrder.flushEgr {egr : ConnEgress} (hegr : egr.InOrder) :
    (egr.flushEgr ti).InOrder := by
  have hcoal : (egr.enter ti).coal = none := hegr.coal
  constructor
  · simp only [ConnEgress.flushEgr, flushCoalescedFw, hcoal]
  · simp only [ConnEgress.flushEgr, flushCoalescedFw, hcoal, List.flatten_append,
      List.flatten_singleton, List.append_nil, ← hegr.flushed]
    rfl

/-- A step leaves the egress, hands it an item, flushes it, or does both. -/
theorem ConnStep.egress {P : ConnEgress → Prop} (hhand : ∀ egr item, P egr → P (egr.hand ti item))
    (hflush : ∀ egr, P egr → P (egr.flushEgr ti)) {c next : Conn ti.reader.State}
    (hstep : ConnStep c next) (hegr : P c.egr) : P next.egr := by
  have hflushed : P c.flush.egr := by
    rw [Conn.flush]
    split
    · exact hflush _ hegr
    · exact hegr
  cases hstep with
  | hands hphase hlook =>
      rename_i loop next item
      have hhanded := hhand c.egr item hegr
      rcases Conn.add_cases { c with egr := c.egr.hand ti item } with ⟨_, hadd⟩ | ⟨_, _, hadd⟩
      · change P (Conn.add _).egr
        rw [hadd]
        exact hflush _ hhanded
      · change P (Conn.add _).egr
        rw [hadd]
        exact hhanded
  | settles => exact hegr
  | lingers => exact hegr
  | blocks => exact hflushed
  | closes => exact hflush _ hegr
  | fails => exact hegr
  | receives => exact hegr
  | timesOut => exact hflushed
  | waits => exact hegr
  | ended => exact hegr

/-- What is kept by handing an item on and by flushing holds of the egress
throughout. -/
theorem handleConn_egress {P : ConnEgress → Prop} {shared : Shared} {script : List ReadResult}
    (hnew : P ⟨ti.newEgress shared, 0, [], []⟩)
    (hhand : ∀ egr item, P egr → P (egr.hand ti item))
    (hflush : ∀ egr, P egr → P (egr.flushEgr ti)) (n : Nat) :
    P (ti.handleConn shared script n).egr :=
  handleConn_induction hnew (fun _ _ hegr hstep => hstep.egress hhand hflush hegr) n

variable (ti) in
/-- The accounts balance as long as every item handed on can leave. -/
theorem handleConn_balanced (hlaws : BundleLaws ti.env)
    (hcodec : BundleCodec ti.env decodeBundle) (shared : Shared) (script : List ReadResult)
    (n : Nat) (hitems : ∀ h ∈ (ti.handleConn shared script n).egr.handed, ti.Encodable h.item) :
    (ti.handleConn shared script n).egr.Balanced ti decodeBundle := by
  refine handleConn_egress
    (P := fun egr => (∀ h ∈ egr.handed, ti.Encodable h.item) → egr.Balanced ti decodeBundle)
    ?_ ?_ ?_ n hitems
  · exact fun _ => ConnEgress.Balanced.new ti shared
  · intro egr item hegr hall
    have hitem : ti.Encodable item :=
      hall ⟨item, _, _⟩ (List.mem_append_right _ (List.mem_singleton_self _))
    exact (hegr fun h hh => hall h (List.mem_append_left _ hh)).hand hitem
  · intro egr hegr hall
    exact (hegr hall).flushEgr hlaws hcodec

variable (ti) in
theorem handleConn_inOrder (hoff : ti.fwd.coalesce = false) (shared : Shared)
    (script : List ReadResult) (n : Nat) : (ti.handleConn shared script n).egr.InOrder := by
  refine handleConn_egress ?_ (fun egr item hegr => hegr.hand item) (fun egr => .flushEgr) n
  refine ⟨?_, rfl⟩
  simp only [TCPIngress.newEgress, hoff, Bool.false_eq_true, ↓reduceIte]

variable (ti) in
theorem handleConn_counted (shared : Shared) (script : List ReadResult) (n : Nat) :
    (ti.handleConn shared script n).Counted :=
  handleConn_induction (Conn.Counted.accept shared script)
    (fun _ _ hcounted hstep => hcounted.step hstep) n

theorem ConnEgress.Balanced.flushedOnce {egr : ConnEgress} (hegr : egr.Balanced ti decodeBundle)
    (hordered : ti.fwd.coalesce = false → egr.InOrder) (hempty : egr.st.Emptied) :
    FlushedOnce ti decodeBundle egr := by
  obtain ⟨⟨flushes, hflushed, hbundles, hqueued, hwaits⟩, _⟩ := hegr
  have hnothing : waitingIn ti.fwd egr.st.coal = [] := by
    cases hcoal : egr.st.coal with
    | none => rfl
    | some coal => exact congrArg (waiting ti.fwd) (hempty.2 coal hcoal)
  rw [hempty.1, List.append_nil] at hqueued
  rw [hnothing, List.append_nil] at hwaits
  refine ⟨⟨flushes, hflushed, hbundles, hqueued, hwaits⟩, ?_⟩
  intro hoff
  have hall := (hordered hoff).flushed
  rw [hempty.1, List.append_nil] at hall
  exact hall

variable (ti) in
/-- When the goroutine ends, everything was flushed once. -/
theorem handleConn_flushedOnce (hlaws : BundleLaws ti.env)
    (hcodec : BundleCodec ti.env decodeBundle) (shared : Shared) (script : List ReadResult)
    (n : Nat) {why : Close} (hended : (ti.handleConn shared script n).phase = .ended why)
    (hitems : ∀ h ∈ (ti.handleConn shared script n).egr.handed, ti.Encodable h.item) :
    FlushedOnce ti decodeBundle (ti.handleConn shared script n).egr :=
  (handleConn_balanced ti hlaws hcodec shared script n hitems).flushedOnce
    (fun hoff => handleConn_inOrder ti hoff shared script n)
    ((handleConn_counted ti shared script n).ended why hended)

/-- Nothing waits behind a blocking read, and a connection none of whose items
is a transaction too long for the bundle it waits for has flushed everything
once when it ends. -/
theorem reads_attended (hlaws : BundleLaws ti.env) (hcodec : BundleCodec ti.env decodeBundle)
    (shared : Shared) (script : List ReadResult) (n : Nat) :
    (ti.handleConn shared script n).Attended ∧
      ((∀ h ∈ (ti.handleConn shared script n).egr.handed, ti.Encodable h.item) →
        ∀ why, (ti.handleConn shared script n).phase = .ended why →
          FlushedOnce ti decodeBundle (ti.handleConn shared script n).egr) := by
  refine ⟨(handleConn_counted ti shared script n).attended, ?_⟩
  intro hitems why hended
  exact handleConn_flushedOnce ti hlaws hcodec shared script n hended hitems

end Accounts

section Sample

open Reference

/-- A reader of records that starts again whenever bytes arrive. -/
def Reference.objReader : ObjReader where
  State := Option (Int × Bytes)
  start _ maximum buffered := some (maximum, buffered)
  next
    | none => .failed .other
    | some (maximum, buffered) =>
        match Reference.decodeBEEFRecord buffered with
        | none => .read
        | some (_, n) =>
            if (n : Int) ≤ maximum then .object (buffered.take n) (some (maximum, buffered.drop n))
            else .failed .tooLarge
  resume
    | some (maximum, buffered), some chunk => some (maximum, buffered ++ chunk)
    | _, _ => none

/-- A connection from one source to a forwarder nobody else uses. -/
def sampleIngress (fwd : Forwarder) (linger : Int) : TCPIngress where
  env := Reference.env
  fwd := fwd
  fmt := Reference.objfmt
  reader := Reference.objReader
  cls := .transaction
  coalesceLinger := linger
  remote := source 1
  clock _ := 0
  others _ st := st.shared

def firstFrame : Bytes := sampleFrame (sampleID 1) (sampleTx 0)
def secondFrame : Bytes := sampleFrame (sampleID 1) (sampleTx 1)

/-- Two frames, cut inside the second, with a timeout in between and one at the
end. -/
def sampleScript : List ReadResult :=
  [.data ⟨firstFrame ++ secondFrame.take 50, by decide⟩, .timeout,
    .data ⟨secondFrame.drop 50, by decide⟩, .timeout]

def ConnPhase.why {S : Type} : ConnPhase S → Option Close
  | .ended why => some why
  | _ => none

theorem ConnPhase.eq_ended {S : Type} {phase : ConnPhase S} {why : Close}
    (hwhy : phase.why = some why) : phase = .ended why := by
  cases phase with
  | ended => exact congrArg ConnPhase.ended (Option.some.inj hwhy)
  | running => cases hwhy
  | lingering => cases hwhy
  | blocked => cases hwhy

/-- No payload that fits an MTU of 1500 is too long for a member. -/
theorem encodable_sample (linger : Int) (item : Handed) :
    (sampleIngress coalescingForwarder linger).Encodable item := by
  intro _ frame f _ _ _ heligible
  have hbudget : ((66 + 2 + f.payload.length : Nat) : Int) ≤ 1500 - 48 := heligible.2
  omega

/-- Two frames wait for the linger of a read each, and leave in a bundle each. -/
theorem reads_attended_sample :
    ((sampleIngress coalescingForwarder 5).handleConn state.shared sampleScript 5).Attended ∧
      FlushedOnce (sampleIngress coalescingForwarder 5) decodeBundle
        ((sampleIngress coalescingForwarder 5).handleConn state.shared sampleScript 12).egr ∧
      ((sampleIngress coalescingForwarder 5).handleConn state.shared sampleScript
        12).egr.flushed.map List.length = [1, 1, 0] := by
  have hlaws : BundleLaws (sampleIngress coalescingForwarder 5).env := bundleLaws
  have hcodec : BundleCodec (sampleIngress coalescingForwarder 5).env decodeBundle := bundleCodec
  refine ⟨(reads_attended hlaws hcodec state.shared sampleScript 5).1, ?_, by decide +kernel⟩
  refine (reads_attended hlaws hcodec state.shared sampleScript 12).2
    (fun h _ => encodable_sample 5 h.item) .header (ConnPhase.eq_ended ?_)
  decide +kernel

/-- A connection that gets one item in one piece and does not linger: the item is
handed on, and the egress is flushed before the next read and at the end. -/
theorem handleConn_one {ti : TCPIngress} (hlinger : ti.linger = 0) {item : Handed}
    (hitem : WellFormed ti item) (hne : item.raw ≠ []) (shared : Shared) :
    ti.handleConn shared [.data ⟨item.raw, hne⟩] 7 =
      { phase := .ended .header
        pending := 0
        egr := (((⟨ti.newEgress shared, 0, [], []⟩ : ConnEgress).hand ti item).flushEgr
          ti).flushEgr ti
        script := [] } := by
  have hdetect : ti.look (.detect item.raw) = .settle (.framed item.raw) :=
    look_detect_of_framed hitem.framed
  have hhand : ti.look (.framed item.raw) = .hand item (.framed []) := by
    have hnext := hitem.framedNext []
    rw [List.append_nil] at hnext
    simp only [TCPIngress.look, hnext]
  have hnow : ¬ (0 < ti.linger) := by
    rw [hlinger]
    decide
  generalize hegr : (⟨ti.newEgress shared, 0, [], []⟩ : ConnEgress) = egr
  have haccept : ti.accept shared [.data ⟨item.raw, hne⟩] =
      ⟨.running (.detect []), 0, egr, [.data ⟨item.raw, hne⟩]⟩ := hegr ▸ rfl
  -- The first read, the item, the read behind it, and the end.
  have hfirst : @Conn.step ti
      ⟨.running (.detect []), 0, egr, [.data ⟨item.raw, hne⟩]⟩ =
      ⟨.blocked (.detect []), 0, egr, [.data ⟨item.raw, hne⟩]⟩ := by
    have hread : ti.look (.detect []) = .read := rfl
    simp only [Conn.step, hread, Conn.read, hnow, false_and, ↓reduceIte]
    rfl
  have harrives : @Conn.step ti
      ⟨.blocked (.detect []), 0, egr, [.data ⟨item.raw, hne⟩]⟩ =
      ⟨.running (.detect item.raw), 0, egr, []⟩ := rfl
  have hsettles : @Conn.step ti ⟨.running (.detect item.raw), 0, egr, []⟩ =
      ⟨.running (.framed item.raw), 0, egr, []⟩ := by
    simp only [Conn.step, hdetect]
  have hhands : @Conn.step ti ⟨.running (.framed item.raw), 0, egr, []⟩ =
      ⟨.running (.framed []), 1, egr.hand ti item, []⟩ := by
    simp only [Conn.step, hhand]
    rfl
  have hasks : @Conn.step ti
      ⟨.running (.framed []), 1, egr.hand ti item, []⟩ =
      ⟨.blocked (.framed []), 0, (egr.hand ti item).flushEgr ti, []⟩ := by
    have hread : ti.look (.framed []) = .read := rfl
    simp only [Conn.step, hread, Conn.read, hnow, false_and, ↓reduceIte]
    rfl
  rw [TCPIngress.handleConn, haccept]
  simp only [Function.iterate_succ_apply, Function.iterate_zero_apply, hfirst, harrives, hsettles,
    hhands, hasks]
  rfl

/-- A transaction frame within the stream's ceiling is an item of the stream. -/
theorem wellFormed_sampleFrame {ti : TCPIngress} (hcls : ti.cls = .transaction) (id : Hash32)
    {tx : Bytes} (hlength : tx.length ≤ defaultMaxObject) :
    WellFormed ti (.dispatchClass (sampleFrame id tx) .transaction) := by
  have hpayLen : (uint32At (sampleFrame id tx) 88).toNat = tx.length :=
    encodeFields_payLen _ _ (Nat.lt_of_le_of_lt hlength (by decide))
  have hversion : byteAt (sampleFrame id tx) 6 = frameVerV2 := rfl
  have hshape : frameShape (byteAt (sampleFrame id tx) 6) = some (headerSize, 88) := rfl
  rw [← hcls]
  refine .frame rfl hshape ?_ ?_ ?_
  · rw [hpayLen]
    exact length_encodeFields _ _
  · rw [hpayLen]
    exact hlength
  · intro hnine
    rw [hversion] at hnine
    exact absurd hnine (by decide)

def txItem (tx : Bytes) : Handed :=
  .dispatchClass (sampleFrame (sampleID 1) tx) .transaction

theorem txItem_raw_ne_nil (tx : Bytes) : (txItem tx).raw ≠ [] := by
  intro hnone
  have hlength : (sampleFrame (sampleID 1) tx).length = headerSize + tx.length :=
    length_encodeFields _ _
  rw [show sampleFrame (sampleID 1) tx = [] from hnone] at hlength
  exact absurd hlength (Nat.ne_of_lt (Nat.lt_add_right _ (by decide)))

/-- A connection that gets this frame under a budget of 128 KiB, and is then
closed by its peer. -/
def jumboConn (tx : Bytes) (n : Nat) : Conn (sampleIngress jumboForwarder 0).reader.State :=
  (sampleIngress jumboForwarder 0).handleConn state.shared
    [.data ⟨(txItem tx).raw, txItem_raw_ne_nil tx⟩] n

/-- The sample egress with a transaction in its buffer. -/
def waitingState (tx : Bytes) : FwState :=
  { state with coal := some ((newCoalBuffer 0).add
    (txFlow jumboForwarder (unstampedTx tx) (source 1)) ⟨sampleID 1, tx⟩) }

theorem hand_jumbo {tx : Bytes} (hfits : tx.length ≤ 131072 - 116) :
    ConnEgress.hand (sampleIngress jumboForwarder 0)
        ⟨(sampleIngress jumboForwarder 0).newEgress state.shared, 0, [], []⟩ (txItem tx) =
      ⟨waitingState tx, 1,
        [⟨txItem tx, { state with coal := some (newCoalBuffer 0) }, waitingState tx⟩], []⟩ := by
  have hstate : { state with coal := some (newCoalBuffer 0) }.coal = some (newCoalBuffer 0) := rfl
  have hafter : ((sampleIngress jumboForwarder 0).dispatch 0 (txItem tx)
      { state with coal := some (newCoalBuffer 0) }).2 = waitingState tx :=
    dispatch_jumbo hfits hstate rfl 0
  have henter : ConnEgress.enter (sampleIngress jumboForwarder 0)
      ⟨(sampleIngress jumboForwarder 0).newEgress state.shared, 0, [], []⟩ =
      { state with coal := some (newCoalBuffer 0) } := rfl
  rw [ConnEgress.hand, henter]
  simp only [show (sampleIngress jumboForwarder 0).clock 0 = 0 from rfl, hafter]
  rfl

/-- A frame of 65536 bytes or more is handed on, waits for a bundle, and no flush
has anything to send. -/
theorem jumboConn_run {tx : Bytes} (hlong : 2 ^ 16 ≤ tx.length)
    (hfits : tx.length ≤ 131072 - 116) : (jumboConn tx 7).phase = .ended .header ∧
      (jumboConn tx 7).egr.handed.map Handover.item = [txItem tx] ∧
      (jumboConn tx 7).egr.flushed = [[], []] ∧
      (jumboConn tx 7).egr.handed.flatMap (Handover.waits jumboForwarder) ≠ [] := by
  have hceiling : tx.length ≤ defaultMaxObject := Nat.le_trans hfits (by decide)
  have hitem : WellFormed (sampleIngress jumboForwarder 0) (txItem tx) :=
    wellFormed_sampleFrame rfl (sampleID 1) hceiling
  have hflush := flush_longMember jumboForwarder (newCoalBuffer 0)
    (txFlow jumboForwarder (unstampedTx tx) (source 1)) ⟨sampleID 1, tx⟩
    (newCoalBuffer_buckets 0) hlong state.chains
  have hone : (Handover.waits jumboForwarder
      ⟨txItem tx, { state with coal := some (newCoalBuffer 0) }, waitingState tx⟩).Perm
      [Member.parcel jumboForwarder (txFlow jumboForwarder (unstampedTx tx) (source 1))
        ⟨sampleID 1, tx⟩] :=
    Handover.waits_perm (waiting_addMember jumboForwarder _ _ (newCoalBuffer 0).buckets)
  rw [jumboConn, handleConn_one rfl hitem, hand_jumbo hfits]
  refine ⟨rfl, rfl, ?_, ?_⟩
  · simp only [ConnEgress.flushEgr, ConnEgress.enter, flushCoalescedFw, FwState.withShared,
      sampleIngress, FwState.shared, waitingState, hflush]
    rfl
  · intro hnone
    have hempty := (List.append_eq_nil_iff.mp hnone).1
    rw [hempty] at hone
    exact absurd hone.length_eq (Nat.zero_ne_one)

theorem jumboConn_not_flushedOnce {tx : Bytes} (hlong : 2 ^ 16 ≤ tx.length)
    (hfits : tx.length ≤ 131072 - 116) :
    ¬ FlushedOnce (sampleIngress jumboForwarder 0) decodeBundle (jumboConn tx 7).egr := by
  obtain ⟨_, _, hflushed, hwaits⟩ := jumboConn_run hlong hfits
  intro honce
  obtain ⟨flushes, hsplit, _, _, hparcels⟩ := honce.flushes
  have hnone : flushes.flatMap (Flushed.parcels jumboForwarder) = [] := by
    apply List.flatMap_eq_nil_iff.mpr
    intro flush hflush
    have hempty : flush.datagrams = [] := by
      have hmem : flush.datagrams ∈ flushes.map Flushed.datagrams := List.mem_map_of_mem hflush
      rw [← hsplit, hflushed] at hmem
      simpa using hmem
    have hbundles := List.map_eq_nil_iff.mp (List.append_eq_nil_iff.mp hempty).2
    rw [Flushed.parcels, hbundles]
    rfl
  exact hwaits (List.perm_nil.mp (hnone ▸ hparcels.symm))

def longTx : Bytes := List.replicate 65536 0

theorem longTx_lengths : 2 ^ 16 ≤ longTx.length ∧ longTx.length ≤ 131072 - 116 := by
  rw [longTx, List.length_replicate]
  decide

/-- Its frame is handed on, and the connection ends without a flush that carries
it. -/
theorem longFrame_unflushed : (jumboConn longTx 7).phase = .ended .header ∧
    (jumboConn longTx 7).egr.handed.map Handover.item = [txItem longTx] ∧
    (jumboConn longTx 7).egr.flushed = [[], []] ∧
    ¬ FlushedOnce (sampleIngress jumboForwarder 0) decodeBundle (jumboConn longTx 7).egr := by
  obtain ⟨hended, hhanded, hflushed, _⟩ := jumboConn_run longTx_lengths.1 longTx_lengths.2
  exact ⟨hended, hhanded, hflushed, jumboConn_not_flushedOnce longTx_lengths.1 longTx_lengths.2⟩

end Sample

end ShardProxy
