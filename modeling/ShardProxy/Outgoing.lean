/-
What the emitting paths have in common.  After its claim an object leaves
whole, stamped or as it came, or split into fragments, or waits for a bundle;
the paths differ in identifiers, flows and destinations only.  Here each path
is put into that one form, and the form is run to its end.
-/
import ShardProxy.Dispatch

namespace ShardProxy

open ByteField Chunks Dispenser

/-- An object past its claim: its frame, the flow it is stamped on unless it is
relayed, the plan it is split by when it is too large, and the requests its
whole frame makes. -/
structure Outgoing (fw : Forwarder) where
  raw : Bytes
  flow : Option ChainKey
  split : Option FragPlan
  reqs : Bytes → List EnqueueReq
  split_fragments : ∀ {plan}, split = some plan → fw.fragments plan.payload

section Outgoing

variable (env : Env) {fw : Forwarder} (o : Outgoing fw)

/-- Send an object: split it, or stamp and queue its frame. -/
def Outgoing.send : Fw Unit :=
  match o.split with
  | some plan => fragmentWith env fw plan
  | none =>
      match o.flow with
      | none => enqueue (o.reqs o.raw)
      | some flow => do
          let raw ← Fw.emit (stampInPlace env fw o.raw flow)
          enqueue (o.reqs raw)

/-- The program an object that fits runs. -/
def Outgoing.program : Emit PUnit :=
  match o.split with
  | some plan =>
      fragmentLoop env fw plan (fw.fragTotal plan.payload)
        (List.range (fw.fragTotal plan.payload))
  | none =>
      match o.flow with
      | none => sendAll (o.reqs o.raw)
      | some flow => do
          let raw ← stampInPlace env fw o.raw flow
          sendAll (o.reqs raw)

/-- The object takes more fragments than a fragment header can count. -/
def Outgoing.Overflows : Prop :=
  ∃ plan, o.split = some plan ∧ 65535 < fw.fragTotal plan.payload

variable (fw) in
/-- The fragments of a plan, numbered on from the flow's last SeqNum. -/
def planRequests (plan : FragPlan) (chains : Chains) : List EnqueueReq :=
  (List.range (fw.fragTotal plan.payload)).map fun i => plan.enqueue
    (planDatagram env fw plan (fw.fragTotal plan.payload) i (env.hashKey plan.flow)
      (lastSeq chains plan.flow + 1 + UInt64.ofNat i))

/-- The whole frame as it leaves. -/
def Outgoing.frame (chains : Chains) : Bytes :=
  match o.flow with
  | none => o.raw
  | some flow => stamped env fw o.raw flow (lastSeq chains flow)

def Outgoing.requests (chains : Chains) : List EnqueueReq :=
  match o.split with
  | some plan => planRequests env fw plan chains
  | none => o.reqs (o.frame env chains)

def Outgoing.chainsAfter (chains : Chains) : Chains :=
  match o.split with
  | some plan => advance chains plan.flow (fw.fragTotal plan.payload)
  | none =>
      match o.flow with
      | none => chains
      | some flow => if uint64At o.raw 48 = 0 then advance chains flow 1 else chains

theorem enqueue_apply (reqs : List EnqueueReq) (st : FwState) :
    enqueue reqs st = (.ok (), { st with queue := st.queue ++ reqs }) := by
  simp [enqueue, Fw.emit]

theorem emit_bind_apply {A B : Type} (prog : Emit A) (next : A → Fw B) (st : FwState) :
    (Fw.emit prog >>= next) st =
      next (run prog st.chains).result
        { st with
          chains := (run prog st.chains).registry
          queue := st.queue ++ (run prog st.chains).outputs } := rfl

variable {env}

theorem fragmentWith_apply (hlaws : FragmentLaws env) {plan : FragPlan}
    (hfragments : fw.fragments plan.payload) (st : FwState) :
    fragmentWith env fw plan st =
      if 65535 < fw.fragTotal plan.payload then (.error (.packet .fragOverflow), st)
      else (.ok (), { st with
        chains := advance st.chains plan.flow (fw.fragTotal plan.payload)
        queue := st.queue ++ planRequests env fw plan st.chains }) := by
  rw [fragmentWith]
  split
  · rfl
  · rename_i hfit
    have hloop := run_fragmentLoop hlaws plan hfragments.1 rfl (Nat.le_of_not_lt hfit) 0
      (fw.fragTotal plan.payload) (by omega) st.chains
    simp only [← List.range_eq_range', Nat.zero_add] at hloop
    simp [Fw.emit, hloop, planRequests]

theorem Outgoing.send_apply (hlaws : FragmentLaws env) (st : FwState)
    (hfit : ¬ o.Overflows) :
    o.send env st = (.ok (), { st with
      chains := o.chainsAfter st.chains
      queue := st.queue ++ o.requests env st.chains }) := by
  rw [Outgoing.send, Outgoing.chainsAfter, Outgoing.requests]
  cases hsplit : o.split with
  | some plan =>
      have hcount : ¬ 65535 < fw.fragTotal plan.payload :=
        fun hover => hfit ⟨plan, hsplit, hover⟩
      simp only [fragmentWith_apply hlaws (o.split_fragments hsplit), hcount, ↓reduceIte]
  | none =>
      rw [Outgoing.frame]
      cases hflow : o.flow with
      | none => simp only [enqueue_apply]
      | some flow =>
          simp only [emit_bind_apply, run_stampInPlace, enqueue_apply, List.append_nil]

/-- Sending an object that fits runs its program. -/
theorem Outgoing.send_eq_program (st : FwState) (hfit : ¬ o.Overflows) :
    o.send env st = Fw.emit (o.program env >>= fun _ => pure ()) st := by
  rw [Outgoing.send, Outgoing.program]
  cases hsplit : o.split with
  | some plan =>
      have hcount : ¬ 65535 < fw.fragTotal plan.payload :=
        fun hover => hfit ⟨plan, hsplit, hover⟩
      simp only [fragmentWith, hcount, ↓reduceIte]
  | none =>
      cases o.flow with
      | none => rfl
      | some flow => simp [Fw.emit, emit_bind_apply, enqueue, run_stampInPlace]

/-- An object with too many fragments is dropped, and nothing is undone. -/
theorem Outgoing.send_overflow (hfit : o.Overflows) (st : FwState) :
    o.send env st = (.error (.packet .fragOverflow), st) := by
  obtain ⟨plan, hsplit, hover⟩ := hfit
  rw [Outgoing.send, hsplit]
  simp only [fragmentWith, hover, ↓reduceIte, Fw.fail_apply]

/-- What sending an object queues: pieces of its plan, or its whole frame. -/
theorem Outgoing.mem_requests {o : Outgoing fw} {chains : Chains} {req : EnqueueReq}
    (hreq : req ∈ o.requests env chains) :
    (∃ plan, o.split = some plan ∧ req ∈ planRequests env fw plan chains) ∨
      (o.split = none ∧ req ∈ o.reqs (o.frame env chains)) := by
  rw [Outgoing.requests] at hreq
  split at hreq
  · exact Or.inl ⟨_, ‹_›, hreq⟩
  · exact Or.inr ⟨‹_›, hreq⟩

theorem dst_of_mem_planRequests {plan : FragPlan} {chains : Chains} {req : EnqueueReq}
    (hreq : req ∈ planRequests env fw plan chains) : req.dst = plan.dst := by
  obtain ⟨i, _, rfl⟩ := List.mem_map.mp hreq
  rfl

/-- A queued datagram carries its flow's HashKey and a SeqNum. -/
def Carries (env : Env) (key : ChainKey) (seqNum : UInt64) (req : EnqueueReq) : Prop :=
  uint64At req.raw 40 = env.hashKey key ∧ uint64At req.raw 48 = seqNum

theorem uint64At_withByte7 (byte7 : Option UInt8) (datagram : Bytes) {off : Nat}
    (hoff : 7 < off) : uint64At (withByte7 byte7 datagram) off = uint64At datagram off := by
  cases byte7 with
  | none => rfl
  | some byte => exact uint64At_set_of_disjoint datagram byte (Or.inl hoff)

theorem carries_planDatagram (hlaws : FragmentLaws env) (plan : FragPlan) (k i : Nat)
    (seqNum : UInt64) :
    Carries env plan.flow seqNum
      (plan.enqueue (planDatagram env fw plan k i (env.hashKey plan.flow) seqNum)) := by
  constructor
  · exact (uint64At_withByte7 _ _ (by decide)).trans (hlaws.hashKey _)
  · exact (uint64At_withByte7 _ _ (by decide)).trans (hlaws.seqNum _)

end Outgoing

section Paths

variable (env : Env) (fw : Forwarder)

/-- The split of an object from a source, when its payload is too large. -/
def splitOf (payload : Bytes) (src : Option NetAddr) (plan : NetAddr → FragPlan) :
    Option FragPlan :=
  if fw.fragments payload then src.map plan else none

variable {fw} in
theorem splitOf_some {payload : Bytes} {src : Option NetAddr} {plan : NetAddr → FragPlan}
    {found : FragPlan} (hfound : splitOf fw payload src plan = some found) :
    ∃ s, src = some s ∧ found = plan s := by
  rw [splitOf] at hfound
  split at hfound
  · obtain ⟨s, hsrc, hplan⟩ := Option.map_eq_some_iff.mp hfound
    exact ⟨s, hsrc, hplan.symm⟩
  · cases hfound

theorem splitOf_fragments {payload : Bytes} {src : Option NetAddr}
    {plan : NetAddr → FragPlan} {found : FragPlan}
    (hfound : splitOf fw payload src plan = some found)
    (hpayload : ∀ s, (plan s).payload = payload) :
    fw.fragments found.payload := by
  rw [splitOf] at hfound
  split at hfound
  · rename_i hfragments
    obtain ⟨s, _, rfl⟩ := Option.map_eq_some_iff.mp hfound
    rw [hpayload s]
    exact hfragments
  · cases hfound

variable {fw} in
/-- The copy for a successor layout is a data datagram of the successor's group. -/
theorem eq_of_mem_bridgeCopy {bridging : Option Engine} {f : Frame} {groupIdx : UInt32}
    {raw : Bytes} {req : EnqueueReq} (hreq : req ∈ bridgeCopy fw bridging f groupIdx raw) :
    ∃ idx, req = enqueueData raw (fw.addrFor idx) idx := by
  cases bridging with
  | none => cases hreq
  | some secondary =>
      simp only [bridgeCopy] at hreq
      split at hreq
      · exact ⟨_, List.mem_singleton.mp hreq⟩
      · cases hreq

variable {fw} in
theorem raw_of_mem_bridgeCopy {bridging : Option Engine} {f : Frame} {groupIdx : UInt32}
    {raw : Bytes} {req : EnqueueReq} (hreq : req ∈ bridgeCopy fw bridging f groupIdx raw) :
    req.raw = raw := by
  obtain ⟨idx, rfl⟩ := eq_of_mem_bridgeCopy hreq
  rfl

def txFlow (f : Frame) (src : NetAddr) : ChainKey :=
  ⟨addrToIPv6 src, fw.engine.groupIndex f.txID, f.subtreeID⟩

/-- A V2 transaction that does not wait for a bundle. -/
def txOut (bridging : Option Engine) (raw : Bytes) (f : Frame) (src : Option NetAddr) :
    Outgoing fw where
  raw := raw
  flow := src.map (txFlow fw f)
  split := splitOf fw f.payload src fun s =>
    fragmentPlan fw f (addrToIPv6 s) (fw.engine.groupIndex f.txID)
  reqs raw :=
    enqueueData raw (fw.addrFor (fw.engine.groupIndex f.txID)) (fw.engine.groupIndex f.txID) ::
      bridgeCopy fw bridging f (fw.engine.groupIndex f.txID) raw
  split_fragments hsplit := splitOf_fragments fw hsplit fun _ => rfl

/-- A V1 transaction leaves as it came. -/
def legacyOut (bridging : Option Engine) (raw : Bytes) (f : Frame) : Outgoing fw where
  raw := raw
  flow := none
  split := none
  reqs raw :=
    enqueueData raw (fw.addrFor (fw.engine.groupIndex f.txID)) (fw.engine.groupIndex f.txID) ::
      bridgeCopy fw bridging f (fw.engine.groupIndex f.txID) raw
  split_fragments h := by cases h

def blockOut (raw : Bytes) (bf : BlockFrame) (src : Option NetAddr) : Outgoing fw where
  raw := raw
  flow := src.map fun s => ⟨addrToIPv6 s, blockCtrlIdx bf, zeroHash⟩
  split := splitOf fw bf.payload src fun s =>
    fragmentBlockPlan fw raw bf (addrToIPv6 s) (blockCtrlIdx bf)
  reqs raw := [enqueueCacheable raw (fw.controlAddr groupBlockBroadcast) "block_control"]
  split_fragments hsplit := splitOf_fragments fw hsplit fun _ => rfl

def anchorOut (raw : Bytes) (src : Option NetAddr) : Outgoing fw where
  raw := raw
  flow := src.map fun s => ⟨addrToIPv6 s, groupAnchorFlow.toUInt32, zeroHash⟩
  split := none
  reqs raw := [enqueueCacheable raw (fw.controlAddr groupBlockBroadcast) "anchor"]
  split_fragments h := by cases h

def subtreeOut (raw : Bytes) (sf : SubtreeDataFrame) (src : Option NetAddr) : Outgoing fw where
  raw := raw
  flow := src.map fun s => ⟨addrToIPv6 s, groupSubtreeDataAnnounce.toUInt32, sf.subtreeID⟩
  split := splitOf fw sf.payload src fun s =>
    fragmentSubtreeDataPlan fw raw sf (addrToIPv6 s) groupSubtreeDataAnnounce.toUInt32
  reqs raw := [enqueueCacheable raw (fw.controlAddr groupSubtreeDataAnnounce) "subtree_data"]
  split_fragments hsplit := splitOf_fragments fw hsplit fun _ => rfl

def beefFlow (groupIdx : UInt32) (src : NetAddr) : ChainKey :=
  ⟨addrToIPv6 src, groupIdx, zeroHash⟩

def beefOut (checked : CheckedBEEF) (src : Option NetAddr) : Outgoing fw where
  raw := checked.raw
  flow := src.map (beefFlow checked.groupIdx)
  split := splitOf fw checked.bf.payload src fun s =>
    fragmentBEEFPlan fw checked.bf (addrToIPv6 s) checked.groupIdx
  reqs raw := [enqueueData raw (fw.addrFor checked.groupIdx) checked.groupIdx]
  split_fragments hsplit := splitOf_fragments fw hsplit fun _ => rfl

theorem emitBlock_eq (raw : Bytes) (bf : BlockFrame) (src : Option NetAddr) :
    emitBlock env fw raw bf src = (blockOut fw raw bf src).send env := by
  cases src with
  | none => by_cases h : fw.fragments bf.payload <;> simp [emitBlock, Outgoing.send, blockOut,
      splitOf, h]
  | some src => by_cases h : fw.fragments bf.payload <;> simp [emitBlock, Outgoing.send,
      blockOut, splitOf, fragmentBlock, h]

theorem emitAnchor_eq (raw : Bytes) (src : Option NetAddr) :
    emitAnchor env fw raw src = (anchorOut fw raw src).send env := by
  cases src <;> rfl

theorem emitSubtreeData_eq (raw : Bytes) (sf : SubtreeDataFrame) (src : Option NetAddr) :
    emitSubtreeData env fw raw sf src = (subtreeOut fw raw sf src).send env := by
  cases src with
  | none => by_cases h : fw.fragments sf.payload <;> simp [emitSubtreeData, Outgoing.send,
      subtreeOut, splitOf, h]
  | some src => by_cases h : fw.fragments sf.payload <;> simp [emitSubtreeData, Outgoing.send,
      subtreeOut, splitOf, fragmentSubtreeData, h]

theorem emitBEEF_eq (checked : CheckedBEEF) (src : Option NetAddr) :
    emitBEEF env fw checked src = (beefOut fw checked src).send env := by
  cases src with
  | none => by_cases h : fw.fragments checked.bf.payload <;> simp [emitBEEF, Outgoing.send,
      beefOut, splitOf, h]
  | some src => by_cases h : fw.fragments checked.bf.payload <;> simp [emitBEEF, Outgoing.send,
      beefOut, splitOf, fragmentBEEF, beefFlow, h]

/-- Whether a transaction from a source waits in the worker's buffer. -/
def Waits (st : FwState) (f : Frame) (src : Option NetAddr) : Prop :=
  src.isSome ∧ f.version = frameVerV2 ∧ ¬ fw.fragments f.payload ∧
    coalesces env fw st f.payload

instance (st : FwState) (f : Frame) (src : Option NetAddr) : Decidable (Waits env fw st f src) :=
  inferInstanceAs (Decidable (_ ∧ _))

theorem emitTx_of_legacy {f : Frame} (hversion : f.version ≠ frameVerV2) (raw : Bytes)
    (src : Option NetAddr) (st : FwState) :
    emitTx env fw raw f src st = (legacyOut fw st.bridging raw f).send env st := by
  cases src <;> simp [emitTx, hversion, Outgoing.send, legacyOut, enqueueTx]

theorem emitTx_of_not_waits {f : Frame} (hversion : f.version = frameVerV2) (raw : Bytes)
    {src : Option NetAddr} {st : FwState} (hwaits : ¬ Waits env fw st f src) :
    emitTx env fw raw f src st = (txOut fw st.bridging raw f src).send env st := by
  cases src with
  | none => by_cases h : fw.fragments f.payload <;>
      simp [emitTx, Outgoing.send, txOut, splitOf, enqueueTx, h]
  | some src =>
      by_cases h : fw.fragments f.payload
      · simp [emitTx, hversion, Outgoing.send, txOut, splitOf, fragment, h]
      · have hcoal : ¬ coalesces env fw st f.payload :=
          fun hcoal => hwaits ⟨rfl, hversion, h, hcoal⟩
        simp only [emitTx, hversion, h, hcoal, Outgoing.send, txOut, splitOf, ↓reduceIte,
          ne_eq, not_true_eq_false, Option.map_some, emit_bind_apply]
        rfl

theorem emitTx_of_waits {f : Frame} (raw : Bytes) {src : NetAddr} {st : FwState}
    (hwaits : Waits env fw st f (some src)) :
    emitTx env fw raw f (some src) st =
      (.ok (), { st with
        coal := st.coal.map fun coal => coal.add (txFlow fw f src) ⟨f.txID, f.payload⟩ }) := by
  obtain ⟨_, hversion, hsmall, hcoal⟩ := hwaits
  simp [emitTx, hversion, hsmall, hcoal, bufferMember, txFlow]

end Paths

end ShardProxy
