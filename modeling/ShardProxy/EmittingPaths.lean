/-
Where the emitting paths send.  A data datagram is queued with the address of the group
index it is queued under, a control datagram with a label and an address of its own.
This holds of every public operation that queues anything, from any state and whatever
the codecs answer.
-/
import ShardProxy.TcpConnection

namespace ShardProxy

open ByteField Dispenser

section Operations

variable (env : Env) (groupText : UInt16 → String) (fw : Forwarder)

/-- `ForwardControl`: a datagram as it came, for a network-service group at a port.  The
label is the text of the group index. -/
def forwardControlTo (raw : Bytes) (idx : UInt16) (port : Nat) : Fw Unit :=
  enqueue [enqueueControl raw ⟨groupAddr fw.mcPrefix fw.mcGroupID idx, port⟩ (groupText idx)]

/-- The operations that queue datagrams.  `AdmitBEEF` is none of them: it hands the
record out and queues nothing. -/
inductive EmitOp where
  | dispatchClass (raw : Bytes) (src : Option NetAddr) (now : Time) (cls : IngressClass)
  | process (raw : Bytes) (src : Option NetAddr)
  | dispatchBareTx (tx : Bytes) (src : Option NetAddr)
  | processBlock (raw : Bytes) (src : Option NetAddr)
  | processAnchor (raw : Bytes) (src : Option NetAddr)
  | processSubtreeData (raw : Bytes) (src : Option NetAddr)
  | processBEEF (raw : Bytes) (src : Option NetAddr) (now : Time)
  | dispatchBEEF (p : PreparedBEEF) (src : Option NetAddr) (now : Time)
  | processBundle (raw : Bytes)
  | flushCoalesced
  | forwardControl (raw : Bytes) (idx : UInt16) (port : Nat)

def EmitOp.prog : EmitOp → Fw Unit
  | .dispatchClass raw src now cls => ShardProxy.dispatchClass env fw raw src now cls
  | .process raw src => processFrame env fw raw src
  | .dispatchBareTx tx src => ShardProxy.dispatchBareTx env fw tx src
  | .processBlock raw src => ShardProxy.processBlock env fw raw src
  | .processAnchor raw src => ShardProxy.processAnchor env fw raw src
  | .processSubtreeData raw src => ShardProxy.processSubtreeData env fw raw src
  | .processBEEF raw src now => processBEEFFrame env fw raw src now
  | .dispatchBEEF p src now => ShardProxy.dispatchBEEF env fw p src now
  | .processBundle raw => ShardProxy.processBundle fw raw
  | .flushCoalesced => flushCoalescedFw env fw
  | .forwardControl raw idx port => forwardControlTo groupText fw raw idx port

/-- What an operation queues from a state. -/
def EmitOp.queued (op : EmitOp) (st : FwState) : List EnqueueReq :=
  (op.prog env groupText fw st).2.queue.drop st.queue.length

/-- The port an operation sends control datagrams to. -/
def EmitOp.controlPort : EmitOp → Nat
  | .forwardControl _ _ port => port
  | _ => fw.egressPort

/-- The control groups of blocks, anchors and subtrees. -/
def objectGroups : List UInt16 :=
  [groupBlockBroadcast, groupSubtreeDataAnnounce]

/-- The groups an operation sends control datagrams to. -/
def EmitOp.controlGroups : EmitOp → List UInt16
  | .forwardControl _ idx _ => [idx]
  | _ => objectGroups

/-- A data datagram goes where its group index says; a control datagram is labelled and
goes to the group address of one of the control indices. -/
inductive Aimed (groups : List UInt16) (port : Nat) (req : EnqueueReq) : Prop where
  | data (hlabel : req.ctrlLabel = "") (hdst : req.dst = fw.addrFor req.groupIdx)
  | control {idx : UInt16} (hidx : idx ∈ groups) (hlabel : req.ctrlLabel ≠ "")
      (hdst : req.dst = ⟨groupAddr fw.mcPrefix fw.mcGroupID idx, port⟩)

end Operations

/-- A computation adds to the queue only, and only what has the property. -/
def Adds (prog : Fw Unit) (P : EnqueueReq → Prop) : Prop :=
  ∀ st, ∃ new, (prog st).2.queue = st.queue ++ new ∧ ∀ req ∈ new, P req

section Objects

variable {env : Env} {fw : Forwarder} {src : Option NetAddr}

/-- What sending an object may queue: requests of its whole frame, or pieces of its
split. -/
def Outgoing.MayQueue (o : Outgoing fw) (req : EnqueueReq) : Prop :=
  (∃ sent, req ∈ o.reqs sent) ∨ ∃ plan datagram, o.split = some plan ∧ req = plan.enqueue datagram

theorem mem_fragmentLoop_outputs {plan : FragPlan} {k : Nat} {indices : List Nat}
    {chains : Chains} {req : EnqueueReq}
    (hreq : req ∈ (run (fragmentLoop env fw plan k indices) chains).outputs) :
    ∃ datagram, req = plan.enqueue datagram := by
  induction indices generalizing chains with
  | nil => cases hreq
  | cons i rest ih =>
      simp only [fragmentLoop, run_bind, run_nextSeq, List.nil_append] at hreq
      rcases List.mem_append.mp hreq with hfirst | hlater
      · generalize encodePlanned env fw plan _ i k _ _ = encoded at hfirst
        cases encoded with
        | none => cases hfirst
        | some datagram => exact ⟨datagram, List.mem_singleton.mp hfirst⟩
      · exact ih hlater

variable (env) in
theorem Outgoing.adds (o : Outgoing fw) : Adds (o.send env) o.MayQueue := by
  intro st
  rw [Outgoing.send]
  cases hsplit : o.split with
  | some plan =>
      simp only [fragmentWith]
      split
      · exact ⟨[], (List.append_nil _).symm, by simp⟩
      · refine ⟨_, rfl, ?_⟩
        intro req hreq
        obtain ⟨datagram, hdatagram⟩ := mem_fragmentLoop_outputs (by simpa using hreq)
        exact Or.inr ⟨plan, datagram, hsplit, hdatagram⟩
  | none =>
      cases o.flow with
      | none =>
          simp only [enqueue_apply]
          exact ⟨_, rfl, fun req hreq => Or.inl ⟨_, hreq⟩⟩
      | some flow =>
          simp only [emit_bind_apply, run_stampInPlace, enqueue_apply, List.append_nil]
          exact ⟨_, rfl, fun req hreq => Or.inl ⟨_, hreq⟩⟩

/-- All that an action may queue is aimed. -/
def Action.Aims (src : Option NetAddr) (action : Action fw) : Prop :=
  ∀ bridging req, (action.out bridging src).MayQueue req → Aimed fw objectGroups fw.egressPort req

theorem aimed_controlAddr {req : EnqueueReq} {label : String} {idx : UInt16}
    (hlabel : label ≠ "") (hidx : idx ∈ objectGroups) (hreq : req.ctrlLabel = label)
    (hdst : req.dst = fw.controlAddr idx) : Aimed fw objectGroups fw.egressPort req := by
  refine .control hidx ?_ hdst
  rw [hreq]
  exact hlabel

theorem aimed_enqueueData (raw : Bytes) (idx : UInt32) :
    Aimed fw objectGroups fw.egressPort (enqueueData raw (fw.addrFor idx) idx) :=
  .data rfl rfl

/-- An object that leaves in one datagram is aimed if that is, and the pieces of the plan
it may be split by. -/
theorem aims_send {o : Outgoing fw} {req : Bytes → EnqueueReq}
    (hreqs : ∀ sent, o.reqs sent = [req sent])
    (hwhole : ∀ sent, Aimed fw objectGroups fw.egressPort (req sent))
    (hplans : ∀ plan datagram, o.split = some plan →
      Aimed fw objectGroups fw.egressPort (plan.enqueue datagram)) :
    (Action.send o).Aims src := by
  rintro bridging own (⟨sent, hown⟩ | ⟨plan, datagram, hplan, rfl⟩)
  · obtain rfl : own = req sent := List.mem_singleton.mp (hreqs sent ▸ hown)
    exact hwhole sent
  · exact hplans plan datagram hplan

theorem aims_tx (frame : Bytes) (f : Frame) : (Action.tx frame f : Action fw).Aims src := by
  intro bridging req hqueue
  have hwhole : ∀ sent, req ∈ enqueueData sent (fw.addrFor (fw.engine.groupIndex f.txID))
      (fw.engine.groupIndex f.txID) ::
        bridgeCopy fw bridging f (fw.engine.groupIndex f.txID) sent →
      Aimed fw objectGroups fw.egressPort req := by
    intro sent hreq
    rcases List.mem_cons.mp hreq with rfl | hcopy
    · exact aimed_enqueueData sent _
    · obtain ⟨idx, rfl⟩ := eq_of_mem_bridgeCopy hcopy
      exact aimed_enqueueData sent idx
  rw [Action.out] at hqueue
  split at hqueue
  · rcases hqueue with ⟨sent, hreq⟩ | ⟨plan, datagram, hplan, rfl⟩
    · exact hwhole sent hreq
    · obtain ⟨s, _, rfl⟩ := splitOf_some hplan
      exact .data rfl rfl
  · rcases hqueue with ⟨sent, hreq⟩ | ⟨plan, datagram, hplan, rfl⟩
    · exact hwhole sent hreq
    · cases hplan

theorem aims_block (raw : Bytes) (bf : BlockFrame) :
    (Action.send (blockOut fw raw bf src)).Aims src := by
  apply aims_send fun _ => rfl
  · intro sent
    exact aimed_controlAddr (by decide : "block_control" ≠ "") (by decide) rfl rfl
  · intro plan datagram hplan
    obtain ⟨s, _, rfl⟩ := splitOf_some hplan
    exact aimed_controlAddr (by decide : "block_control" ≠ "") (by decide) rfl rfl

theorem aims_subtreeData (raw : Bytes) (sf : SubtreeDataFrame) :
    (Action.send (subtreeOut fw raw sf src)).Aims src := by
  apply aims_send fun _ => rfl
  · intro sent
    exact aimed_controlAddr (by decide : "subtree_data" ≠ "") (by decide) rfl rfl
  · intro plan datagram hplan
    obtain ⟨s, _, rfl⟩ := splitOf_some hplan
    exact aimed_controlAddr (by decide : "subtree_data" ≠ "") (by decide) rfl rfl

theorem aims_anchor (raw : Bytes) : (Action.send (anchorOut fw raw src)).Aims src := by
  apply aims_send fun _ => rfl
  · intro sent
    exact aimed_controlAddr (by decide : "anchor" ≠ "") (by decide) rfl rfl
  · intro plan datagram hplan
    cases hplan

theorem aims_beef (checked : CheckedBEEF) : (Action.send (beefOut fw checked src)).Aims src := by
  apply aims_send fun _ => rfl
  · intro sent
    exact aimed_enqueueData sent _
  · intro plan datagram hplan
    obtain ⟨s, _, rfl⟩ := splitOf_some hplan
    exact .data rfl rfl

theorem aims_relay (raw : Bytes) : (Action.send (relayOut fw raw)).Aims src := by
  apply aims_send fun _ => rfl
  · intro sent
    exact aimed_enqueueData sent _
  · intro plan datagram hplan
    cases hplan

theorem Admits.aims {raw : Bytes} {action : Action fw} (hadmits : Admits env fw raw src action) :
    action.Aims src := by
  cases hadmits with
  | tx hframe hgates => exact aims_tx _ _
  | block hframed hversion hgates => exact aims_block _ _
  | subtreeData hframed hversion hgates => exact aims_subtreeData _ _
  | anchor hanchor => exact aims_anchor _
  | beef hsubmits hgates => exact aims_beef _
  | relay hframed hversion hgates => exact aims_relay _

/-- What settles in aimed actions queues aimed datagrams. -/
theorem Settles.adds {prog : Fw Unit} {P : Action fw → Prop} (hsettles : Settles env src prog P)
    (haims : ∀ action, P action → action.Aims src) :
    Adds prog (Aimed fw objectGroups fw.egressPort) := by
  intro st
  rcases hsettles st.ledger with ⟨drop, ledger, hdrop⟩ | ⟨action, ledger, haction, hact⟩
  · rw [hdrop st rfl]
    exact ⟨[], (List.append_nil _).symm, by simp⟩
  · rw [hact st rfl]
    by_cases hwaits : action.Waits env src (st.withLedger ledger)
    · obtain ⟨frame, f, s, rfl, rfl⟩ := Action.eq_tx_of_waits hwaits
      rw [Action.act, emitTx_of_waits env fw frame hwaits]
      exact ⟨[], (List.append_nil _).symm, by simp⟩
    · rw [Action.act_of_not_waits hwaits]
      obtain ⟨new, hqueue, hnew⟩ := Outgoing.adds env
        (action.out (st.withLedger ledger).bridging src) (st.withLedger ledger)
      exact ⟨new, hqueue, fun req hreq => haims action haction _ req (hnew req hreq)⟩

end Objects

section Flushing

variable {env : Env} {fw : Forwarder}

theorem aimed_flushBundles {bk : CoalBucket} {bundles : List (List Member)} {chains : Chains}
    {req : EnqueueReq} (hreq : req ∈ (run (flushBundles env fw bk bundles) chains).outputs) :
    Aimed fw objectGroups fw.egressPort req := by
  induction bundles generalizing chains with
  | nil => cases hreq
  | cons members rest ih =>
      simp only [flushBundles, run_bind, run_nextSeq, List.nil_append] at hreq
      rcases List.mem_append.mp hreq with hfirst | hlater
      · generalize env.encodeBundle _ = encoded at hfirst
        cases encoded with
        | none => cases hfirst
        | some datagram =>
            rw [List.mem_singleton.mp hfirst]
            exact aimed_enqueueData datagram _
      · exact ih hlater

theorem aimed_flushBuckets {maxMembers : Nat} {buckets : List CoalBucket} {chains : Chains}
    {req : EnqueueReq}
    (hreq : req ∈ (run (flushBuckets env fw maxMembers buckets) chains).outputs) :
    Aimed fw objectGroups fw.egressPort req := by
  induction buckets generalizing chains with
  | nil => cases hreq
  | cons bk rest ih =>
      simp only [flushBuckets, run_bind] at hreq
      rcases List.mem_append.mp hreq with hfirst | hlater
      · exact aimed_flushBundles hfirst
      · exact ih hlater

theorem flushCoalesced_adds :
    Adds (flushCoalescedFw env fw) (Aimed fw objectGroups fw.egressPort) := by
  intro st
  rw [flushCoalescedFw]
  split
  · exact ⟨[], (List.append_nil _).symm, by simp⟩
  · exact ⟨_, rfl, fun req hreq => aimed_flushBuckets hreq⟩

end Flushing

section Paths

variable {env : Env} {groupText : UInt16 → String} {fw : Forwarder}

theorem processBEEF_aims (frame : Bytes) (src : Option NetAddr) (now : Time)
    (checkContentID : Bool) :
    Settles env src (processBEEF env fw frame src now checkContentID)
      (Action.Aims src : Action fw → Prop) := by
  refine Settles.bind (checkBEEF_reads frame checkContentID) ?_
  intro checked _
  rw [emitBEEF_eq]
  exact Settles.act (.send _) (aims_beef checked)

variable (env fw) in
theorem EmitOp.adds (htext : ∀ idx, groupText idx ≠ "") (op : EmitOp) :
    Adds (op.prog env groupText fw) (Aimed fw op.controlGroups (op.controlPort fw)) := by
  have hsettled : ∀ (src : Option NetAddr) {prog : Fw Unit},
      Settles env src prog (Action.Aims src : Action fw → Prop) →
        Adds prog (Aimed fw objectGroups fw.egressPort) :=
    fun _ _ hsettles => hsettles.adds fun _ haims => haims
  cases op with
  | dispatchClass raw src now cls =>
      exact (dispatchClass_settles env fw raw src now cls).adds fun _ hadmits => hadmits.aims
  | process raw src => exact hsettled src (process_settles fun f _ => aims_tx raw f)
  | dispatchBareTx tx src =>
      refine hsettled src (Settles.bind (LedgerOnly.gate _) ?_)
      intro framed _
      exact process_settles fun f _ => aims_tx framed f
  | processBlock raw src =>
      refine hsettled src (Settles.bind (LedgerOnly.gate _) fun bf _ => ?_)
      refine Settles.bind (LedgerOnly.claim _ _ _) fun _ _ => ?_
      rw [emitBlock_eq]
      exact Settles.act (.send _) (aims_block raw bf)
  | processAnchor raw src =>
      refine hsettled src (Settles.bind (LedgerOnly.gate _) fun f _ => ?_)
      refine Settles.bind (LedgerOnly.claim _ _ _) fun _ _ => ?_
      rw [emitAnchor_eq]
      exact Settles.act (.send _) (aims_anchor raw)
  | processSubtreeData raw src =>
      refine hsettled src (Settles.bind (LedgerOnly.gate _) fun sf _ => ?_)
      refine Settles.bind (LedgerOnly.claim _ _ _) fun _ _ => ?_
      rw [emitSubtreeData_eq]
      exact Settles.act (.send _) (aims_subtreeData raw sf)
  | processBEEF raw src now => exact hsettled src (processBEEF_aims raw src now true)
  | dispatchBEEF p src now =>
      rw [EmitOp.prog, ShardProxy.dispatchBEEF]
      cases p.frame with
      | none => exact hsettled src (Settles.fail _)
      | some frame => exact hsettled src (processBEEF_aims frame src now false)
  | processBundle raw =>
      apply hsettled none
      refine Settles.bind (LedgerOnly.gate _) fun _ _ => ?_
      exact Settles.act (.send (relayOut fw raw)) (aims_relay raw)
  | flushCoalesced => exact flushCoalesced_adds
  | forwardControl raw idx port =>
      intro st
      refine ⟨_, rfl, ?_⟩
      intro req hreq
      rw [List.mem_singleton.mp hreq]
      exact .control List.mem_cons_self (htext idx) rfl

/-- What an operation queues stands behind what was queued before. -/
theorem EmitOp.queue_eq (htext : ∀ idx, groupText idx ≠ "") (op : EmitOp) (st : FwState) :
    (op.prog env groupText fw st).2.queue = st.queue ++ op.queued env groupText fw st := by
  obtain ⟨new, hqueue, _⟩ := EmitOp.adds env fw htext op st
  rw [EmitOp.queued, hqueue, List.drop_left]

theorem EmitOp.aimed (htext : ∀ idx, groupText idx ≠ "") {op : EmitOp} {st : FwState}
    {req : EnqueueReq} (hreq : req ∈ op.queued env groupText fw st) :
    Aimed fw op.controlGroups (op.controlPort fw) req := by
  obtain ⟨new, hqueue, hnew⟩ := EmitOp.adds env fw htext op st
  rw [EmitOp.queued, hqueue, List.drop_left] at hreq
  exact hnew req hreq

end Paths

end ShardProxy
