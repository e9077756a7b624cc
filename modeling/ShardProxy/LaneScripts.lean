/-
The emitting operations step by step.  Several lanes work on one forwarder at a time,
and what they share they touch by single operations: a claim on a dedup store, a charge
of the budgets, a counter looked up or added to, the bridging engine loaded.  Each
operation is a program of these here, in the order of the code, and run alone it is the
operation as a whole.
-/
import ShardProxy.EmittingPaths
import ShardProxy.Lib.AtomicOps

namespace ShardProxy

open ByteField Dispenser AtomicOps

/-- What `Claim` answers: the claim is the caller's, it is somebody else's, or the store
failed and lets the caller pass. -/
inductive ClaimAnswer where
  | won
  | lost
  | failedOpen
deriving DecidableEq

/-- The operations on what lanes share, and on the egress of the lane itself. -/
inductive LaneOp where
  | allow (src : Option NetAddr) (n : Nat) (now : Time)
  | claim (ref : DedupRef) (id : Hash32)
  | resolve (key : ChainKey)
  | add (ref : Nat) (n : UInt64)
  | loadBridging
  | coalArmed
  | addMember (flow : ChainKey) (member : Member)
  | takeMembers
  | enqueue (req : EnqueueReq)
  | takeQueue

def LaneOp.Answer : LaneOp → Type
  | .allow _ _ _ => RateDecision
  | .claim _ _ => ClaimAnswer
  | .resolve _ => Nat
  | .add _ _ => UInt64
  | .loadBridging => Option Engine
  | .coalArmed => Bool
  | .addMember _ _ => Unit
  | .takeMembers => Option CoalBuffer
  | .enqueue _ => Unit
  | .takeQueue => List EnqueueReq

/-- A program of a lane; it ends or stops with a drop. -/
def LaneProg (A : Type) : Type := Script LaneOp LaneOp.Answer (Except Drop A)

namespace LaneProg

variable {A B : Type}

/-- Go on with a result, or stop with the drop. -/
def goOn (next : A → LaneProg B) : Except Drop A → LaneProg B
  | .ok result => next result
  | .error drop => .done (.error drop)

instance : Monad LaneProg where
  pure result := .done (.ok result)
  bind x next := Script.bind x (goOn next)

theorem bind_assoc {C : Type} (x : LaneProg A) (f : A → LaneProg B) (g : B → LaneProg C) :
    x >>= f >>= g = x >>= fun result => f result >>= g := by
  refine (Script.bind_assoc x (goOn f) (goOn g)).trans ?_
  refine congrArg (Script.bind x) (funext fun result => ?_)
  cases result <;> rfl

def fail (drop : Drop) : LaneProg A := .done (.error drop)

def gate (check : Except Drop A) : LaneProg A := .done check

def ask (op : LaneOp) : LaneProg op.Answer := Script.ask op fun answer => .done (.ok answer)

def allow (src : Option NetAddr) (n : Nat) (now : Time) : LaneProg RateDecision :=
  ask (.allow src n now)

def claim (ref : DedupRef) (id : Hash32) : LaneProg ClaimAnswer := ask (.claim ref id)

def loadBridging : LaneProg (Option Engine) := ask .loadBridging

def coalArmed : LaneProg Bool := ask .coalArmed

def addMember (flow : ChainKey) (member : Member) : LaneProg Unit := ask (.addMember flow member)

def takeMembers : LaneProg (Option CoalBuffer) := ask .takeMembers

def takeQueue : LaneProg (List EnqueueReq) := ask .takeQueue

/-- Number and queue datagrams: a counter is looked up, then added to. -/
def emit : Emit A → LaneProg A
  | .done result => .done (.ok result)
  | .reserve key n next =>
      Script.ask (.resolve key) fun (ref : Nat) =>
        Script.ask (.add ref (UInt64.ofNat n)) fun (after : UInt64) =>
          emit (next (after - UInt64.ofNat n + 1))
  | .emit req next => Script.ask (.enqueue req) fun _ => emit next

section Paths

variable (env : Env) (fw : Forwarder)

def claimIngressIn (dedup : Option DedupRef) (id : Hash32) (frameType : String) : LaneProg Unit :=
  match dedup with
  | none => pure ()
  | some ref => do
      let answer ← claim ref id
      if answer = .lost then fail (.deduped frameType) else pure ()

def claimIngress (id : Hash32) (frameType : String) : LaneProg Unit :=
  claimIngressIn fw.txDedup id frameType

def claimBEEFIngress (key : Hash32) (frameType : String) : LaneProg Unit :=
  match fw.beefDedup with
  | some ref => claimIngressIn (some ref) key frameType
  | none => claimIngressIn fw.txDedup key frameType

def fragmentWith (plan : FragPlan) : LaneProg Unit :=
  if 65535 < fw.fragTotal plan.payload then fail (.packet .fragOverflow)
  else
    emit do
      fragmentLoop env fw plan (fw.fragTotal plan.payload)
        (List.range (fw.fragTotal plan.payload))
      pure ()

def enqueue (reqs : List EnqueueReq) : LaneProg Unit :=
  emit do
    sendAll reqs
    pure ()

/-- The active group's copy is queued before the bridging engine is loaded. -/
def enqueueTx (f : Frame) (groupIdx : UInt32) (raw : Bytes) : LaneProg Unit := do
  enqueue [enqueueData raw (fw.addrFor groupIdx) groupIdx]
  let bridging ← loadBridging
  enqueue (bridgeCopy fw bridging f groupIdx raw)

/-- The engine is loaded only for an egress that coalesces. -/
def coalesces (payload : Bytes) : LaneProg Bool :=
  if fw.coalesce then do
    let armed ← coalArmed
    if armed then do
      let bridging ← loadBridging
      pure (decide (bridging.isNone ∧
        ((bundleHeaderSize + env.memberOverhead fw.coalesceCarryTxid + payload.length : Nat) :
          Int) ≤ fw.coalesceBudget))
    else pure false
  else pure false

/-- A transaction that waits for no bundle is stamped, then queued; the engine is loaded
again for the second copy. -/
def emitTx (raw : Bytes) (f : Frame) (src : Option NetAddr) : LaneProg Unit :=
  let groupIdx := fw.engine.groupIndex f.txID
  match src with
  | none => enqueueTx fw f groupIdx raw
  | some src =>
      if f.version ≠ frameVerV2 then enqueueTx fw f groupIdx raw
      else
        let flow : ChainKey := ⟨addrToIPv6 src, groupIdx, f.subtreeID⟩
        if fw.fragments f.payload then
          fragmentWith env fw (fragmentPlan fw f (addrToIPv6 src) groupIdx)
        else do
          let waits ← coalesces env fw f.payload
          if waits then addMember flow ⟨f.txID, f.payload⟩
          else do
            let raw ← emit (stampInPlace env fw raw flow)
            enqueueTx fw f groupIdx raw

def process (raw : Bytes) (src : Option NetAddr) (verify : Bool) : LaneProg Unit := do
  let f ← gate (txGates env fw raw verify)
  if f.version = frameVerV2 then claimIngress fw f.txID "brc124"
  emitTx env fw raw f src

def dispatchBareTx (tx : Bytes) (src : Option NetAddr) : LaneProg Unit := do
  let framed ← gate (bareTxGates env fw tx)
  process env fw framed src false

def emitBlock (raw : Bytes) (bf : BlockFrame) (src : Option NetAddr) : LaneProg Unit :=
  let req (raw : Bytes) := enqueueCacheable raw (fw.controlAddr groupBlockBroadcast)
    "block_control"
  match src with
  | none => enqueue [req raw]
  | some src =>
      if fw.fragments bf.payload then
        fragmentWith env fw (fragmentBlockPlan fw raw bf (addrToIPv6 src) (blockCtrlIdx bf))
      else do
        let raw ← emit (stampInPlace env fw raw ⟨addrToIPv6 src, blockCtrlIdx bf, zeroHash⟩)
        enqueue [req raw]

def processBlock (raw : Bytes) (src : Option NetAddr) : LaneProg Unit := do
  let bf ← gate (blockGates env fw raw)
  claimIngress fw bf.contentID "brc131"
  emitBlock env fw raw bf src

def emitAnchor (raw : Bytes) (src : Option NetAddr) : LaneProg Unit :=
  let req (raw : Bytes) := enqueueCacheable raw (fw.controlAddr groupBlockBroadcast) "anchor"
  match src with
  | none => enqueue [req raw]
  | some src => do
      let raw ← emit
        (stampInPlace env fw raw ⟨addrToIPv6 src, groupAnchorFlow.toUInt32, zeroHash⟩)
      enqueue [req raw]

def processAnchor (raw : Bytes) (src : Option NetAddr) : LaneProg Unit := do
  let f ← gate (anchorGates env raw)
  claimIngress fw f.txID "brc134"
  emitAnchor env fw raw src

def emitSubtreeData (raw : Bytes) (sf : SubtreeDataFrame) (src : Option NetAddr) : LaneProg Unit :=
  let req (raw : Bytes) := enqueueCacheable raw (fw.controlAddr groupSubtreeDataAnnounce)
    "subtree_data"
  let ctrlIdx := groupSubtreeDataAnnounce.toUInt32
  match src with
  | none => enqueue [req raw]
  | some src =>
      if fw.fragments sf.payload then
        fragmentWith env fw (fragmentSubtreeDataPlan fw raw sf (addrToIPv6 src) ctrlIdx)
      else do
        let raw ← emit (stampInPlace env fw raw ⟨addrToIPv6 src, ctrlIdx, sf.subtreeID⟩)
        enqueue [req raw]

def processSubtreeData (raw : Bytes) (src : Option NetAddr) : LaneProg Unit := do
  let sf ← gate (subtreeGates env fw raw)
  claimIngress fw sf.subtreeID "brc132"
  emitSubtreeData env fw raw sf src

def processBundle (raw : Bytes) : LaneProg Unit := do
  gate (bundleGates raw)
  enqueue [enqueueData raw (fw.addrFor (bundleGroup raw)) (bundleGroup raw)]

def chargeBudget (src : Option NetAddr) (n : Nat) (now : Time) : LaneProg Unit :=
  do
    match ← allow src n now with
    | .allow => pure ()
    | .denySource => fail (.packet .beefRateSource)
    | .denyPlane => fail (.packet .beefRatePlane)

def checkBEEF (raw : Bytes) (src : Option NetAddr) (now : Time) (checkContentID : Bool) :
    LaneProg CheckedBEEF := do
  let (engine, bf, topics) ← gate (beefGates env fw raw src)
  let (bf, raw) := setDeliverCount fw bf raw src topics
  chargeBudget src raw.length now
  gate (contentGate env bf src checkContentID)
  claimBEEFIngress fw (beefClaimKey env bf.contentID bf.topicID) "brc148"
  pure ⟨bf, engine.groupIndex bf.topicID, raw⟩

def emitBEEF (checked : CheckedBEEF) (src : Option NetAddr) : LaneProg Unit :=
  let req (raw : Bytes) := enqueueData raw (fw.addrFor checked.groupIdx) checked.groupIdx
  match src with
  | none => enqueue [req checked.raw]
  | some src =>
      if fw.fragments checked.bf.payload then
        fragmentWith env fw (fragmentBEEFPlan fw checked.bf (addrToIPv6 src) checked.groupIdx)
      else do
        let raw ← emit
          (stampInPlace env fw checked.raw ⟨addrToIPv6 src, checked.groupIdx, zeroHash⟩)
        enqueue [req raw]

def processBEEF (raw : Bytes) (src : Option NetAddr) (now : Time) (checkContentID : Bool) :
    LaneProg Unit := do
  let checked ← checkBEEF env fw raw src now checkContentID
  emitBEEF env fw checked src

def dispatchBEEF (p : PreparedBEEF) (src : Option NetAddr) (now : Time) : LaneProg Unit :=
  match p.frame with
  | none => fail (.submission p.result)
  | some frame => processBEEF env fw frame src now false

/-- `DispatchClass` -/
def dispatchClass (raw : Bytes) (src : Option NetAddr) (now : Time) (cls : IngressClass) :
    LaneProg Unit :=
  if ¬ framed raw then
    if 2 ≤ raw.length ∧ uint16At raw 0 = beefRecordTag then
      dispatchBEEF env fw (prepareBEEF env fw raw src) src now
    else if cls = .beef then fail (.packet .nonBEEFOnBEEFLane)
    else dispatchBareTx env fw raw src
  else if versionByte raw = some frameVerV4 then
    if cls ≠ .privileged then fail (.privileged (privilegedFrameType raw))
    else processBlock env fw raw src
  else if versionByte raw = some frameVerV5 then
    if cls ≠ .privileged then fail (.privileged (privilegedFrameType raw))
    else processSubtreeData env fw raw src
  else if versionByte raw = some frameVerV6 then
    if cls = .beef then fail (.packet .nonBEEFOnBEEFLane) else processAnchor env fw raw src
  else if versionByte raw = some frameVerV9 then processBEEF env fw raw src now true
  else if versionByte raw = some frameVerV8 then
    if cls = .beef then fail (.packet .nonBEEFOnBEEFLane) else processBundle fw raw
  else if cls = .beef then fail (.packet .nonBEEFOnBEEFLane)
  else process env fw raw src fw.verifyPayloadHash

/-- `FlushCoalesced` -/
def flushCoalesced : LaneProg Unit := do
  match ← takeMembers with
  | none => pure ()
  | some coal => emit do
      ShardProxy.flushCoalesced env fw coal
      pure ()

/-- `flushEgr`: bundle what waits, and take the queue to the targets. -/
def flushEgr : LaneProg Unit := do
  flushCoalesced env fw
  let _ ← takeQueue
  pure ()

end Paths

end LaneProg

section Alone

variable (env : Env)

/-- An operation of the only lane. -/
def laneStep : (op : LaneOp) → FwState → op.Answer × FwState
  | .allow src n now, st =>
      ((st.beefLimit.allow env src n now).1,
        { st with beefLimit := (st.beefLimit.allow env src n now).2 })
  | .claim ref id, st =>
      if (ref.keySpace, id) ∈ st.stores ref.store then (ClaimAnswer.lost, st)
      else (ClaimAnswer.won, { st with
        stores := Function.update st.stores ref.store
          (insert (ref.keySpace, id) (st.stores ref.store)) })
  | .resolve key, st =>
      ((st.chains.resolve ChainKey.stripe key).1,
        { st with chains := (st.chains.resolve ChainKey.stripe key).2 })
  | .add ref n, st => ((st.chains.add ref n).1, { st with chains := (st.chains.add ref n).2 })
  | .loadBridging, st => (st.bridging, st)
  | .coalArmed, st => (st.coal.isSome, st)
  | .addMember flow member, st =>
      ((), { st with coal := st.coal.map fun coal => coal.add flow member })
  | .takeMembers, st => (st.coal, { st with coal := st.coal.map CoalBuffer.reset })
  | .enqueue req, st => ((), { st with queue := st.queue ++ [req] })
  | .takeQueue, st => (st.queue, { st with queue := [] })

/-- A program of the only lane, run to its end. -/
def LaneProg.exec {A : Type} (x : LaneProg A) : Fw A := fun st => Script.exec (laneStep env) x st

namespace LaneProg

variable {env} {fw : Forwarder} {A B : Type}

theorem exec_pure (result : A) : (pure result : LaneProg A).exec env = pure result := rfl

theorem exec_gate (check : Except Drop A) : (gate check).exec env = Fw.gate check := rfl

theorem exec_bind (x : LaneProg A) (next : A → LaneProg B) :
    (x >>= next).exec env = x.exec env >>= fun result => (next result).exec env := by
  funext st
  have hrun : (x >>= next).exec env st =
      Script.exec (laneStep env) (goOn next (x.exec env st).1) (x.exec env st).2 :=
    Script.exec_bind (laneStep env) x (goOn next) st
  rw [hrun, Fw.bind_apply]
  rcases x.exec env st with ⟨result | drop, after⟩ <;> rfl

/-- Looking a counter up and adding to it is reserving. -/
theorem exec_emit (prog : Emit A) : (emit prog).exec env = Fw.emit prog := by
  funext st
  induction prog generalizing st with
  | done result =>
      change (Except.ok result, st) = (Except.ok result, { st with queue := st.queue ++ [] })
      rw [List.append_nil]
  | reserve key n next ih =>
      exact ih _ _
  | emit req next ih =>
      refine (ih { st with queue := st.queue ++ [req] }).trans ?_
      simp only [Fw.emit, run, Prog.exec_emit, List.append_assoc, List.singleton_append]

theorem exec_allow (src : Option NetAddr) (n : Nat) (now : Time) (st : FwState) :
    (allow src n now).exec env st =
      (.ok (st.beefLimit.allow env src n now).1,
        { st with beefLimit := (st.beefLimit.allow env src n now).2 }) := rfl

theorem exec_loadBridging (st : FwState) :
    loadBridging.exec env st = (.ok st.bridging, st) := rfl

theorem exec_coalArmed (st : FwState) : coalArmed.exec env st = (.ok st.coal.isSome, st) := rfl

theorem exec_addMember (flow : ChainKey) (member : Member) :
    (addMember flow member).exec env = bufferMember flow member := rfl

theorem exec_takeMembers (st : FwState) :
    takeMembers.exec env st =
      (.ok st.coal, { st with coal := st.coal.map CoalBuffer.reset }) := rfl

theorem exec_claimIngressIn (dedup : Option DedupRef) (id : Hash32) (frameType : String) :
    (claimIngressIn dedup id frameType).exec env =
      ShardProxy.claimIngressIn dedup id frameType := by
  funext st
  cases dedup with
  | none => rfl
  | some ref =>
      by_cases hclaimed : (ref.keySpace, id) ∈ st.stores ref.store
      · have hlost : (claim ref id).exec env st = (.ok .lost, st) := by
          simp only [claim, ask, LaneProg.exec, Script.exec, laneStep, hclaimed, ↓reduceIte]
          rfl
        rw [claimIngressIn, exec_bind, Fw.bind_of_ok hlost]
        simp only [ShardProxy.claimIngressIn, hclaimed, ↓reduceIte]
        rfl
      · have hwon : (claim ref id).exec env st = (.ok .won, { st with
            stores := Function.update st.stores ref.store
              (insert (ref.keySpace, id) (st.stores ref.store)) }) := by
          simp only [claim, ask, LaneProg.exec, Script.exec, laneStep, hclaimed, ↓reduceIte]
          rfl
        rw [claimIngressIn, exec_bind, Fw.bind_of_ok hwon]
        simp only [ShardProxy.claimIngressIn, hclaimed, ↓reduceIte, reduceCtorEq]
        rfl

theorem exec_claimBEEFIngress (key : Hash32) (frameType : String) :
    (claimBEEFIngress fw key frameType).exec env =
      ShardProxy.claimBEEFIngress fw key frameType := by
  rw [claimBEEFIngress, ShardProxy.claimBEEFIngress]
  cases fw.beefDedup with
  | none => exact exec_claimIngressIn _ _ _
  | some ref => exact exec_claimIngressIn _ _ _

theorem exec_fragmentWith (plan : FragPlan) :
    (fragmentWith env fw plan).exec env = ShardProxy.fragmentWith env fw plan := by
  rw [fragmentWith, ShardProxy.fragmentWith]
  split
  · rfl
  · exact exec_emit _

theorem exec_enqueue (reqs : List EnqueueReq) :
    (enqueue reqs).exec env = ShardProxy.enqueue reqs :=
  exec_emit _

/-- Nobody publishes an engine between the two copies. -/
theorem exec_enqueueTx (f : Frame) (groupIdx : UInt32) (raw : Bytes) :
    (enqueueTx fw f groupIdx raw).exec env = ShardProxy.enqueueTx fw f groupIdx raw := by
  funext st
  rw [enqueueTx, exec_bind, exec_enqueue, Fw.bind_of_ok (enqueue_apply _ _), exec_bind,
    Fw.bind_of_ok (exec_loadBridging _), exec_enqueue]
  simp only [ShardProxy.enqueueTx, enqueue_apply, List.append_assoc, List.singleton_append]

theorem exec_coalesces (payload : Bytes) (st : FwState) :
    (coalesces env fw payload).exec env st =
      (.ok (decide (ShardProxy.coalesces env fw st payload)), st) := by
  rw [coalesces]
  by_cases hcoalesce : fw.coalesce = true
  · rw [if_pos hcoalesce, exec_bind, Fw.bind_of_ok (exec_coalArmed st)]
    cases hcoal : st.coal with
    | none =>
        simp only [ShardProxy.coalesces, hcoal, Option.isSome_none, Bool.false_eq_true,
          ↓reduceIte, false_and, and_false, decide_false]
        rfl
    | some coal =>
        simp only [ShardProxy.coalesces, hcoal, hcoalesce, Option.isSome_some, ↓reduceIte,
          true_and]
        rw [exec_bind, Fw.bind_of_ok (exec_loadBridging st)]
        rfl
  · rw [if_neg hcoalesce]
    simp only [ShardProxy.coalesces, hcoalesce, Bool.false_eq_true, false_and, decide_false]
    rfl

theorem exec_emitTx (raw : Bytes) (f : Frame) (src : Option NetAddr) :
    (emitTx env fw raw f src).exec env = ShardProxy.emitTx env fw raw f src := by
  funext st
  cases src with
  | none => exact congrFun (exec_enqueueTx _ _ _) st
  | some src =>
      simp only [emitTx, ShardProxy.emitTx]
      by_cases hversion : f.version ≠ frameVerV2
      · rw [if_pos hversion, if_pos hversion, exec_enqueueTx]
      · rw [if_neg hversion, if_neg hversion]
        by_cases hfragments : fw.fragments f.payload
        · rw [if_pos hfragments, if_pos hfragments, exec_fragmentWith]
          rfl
        · rw [if_neg hfragments, if_neg hfragments, exec_bind,
            Fw.bind_of_ok (exec_coalesces f.payload st)]
          by_cases hwaits : ShardProxy.coalesces env fw st f.payload
          · simp only [hwaits, decide_true, ↓reduceIte, exec_addMember]
          · simp only [hwaits, decide_false, Bool.false_eq_true, ↓reduceIte, exec_bind, exec_emit,
              exec_enqueueTx]

theorem exec_process (raw : Bytes) (src : Option NetAddr) (verify : Bool) :
    (process env fw raw src verify).exec env = ShardProxy.process env fw raw src verify := by
  rw [process, ShardProxy.process, exec_bind, exec_gate]
  congr 1
  funext f
  by_cases hversion : f.version = frameVerV2
  · simp only [hversion, ↓reduceIte, exec_bind, exec_emitTx, claimIngress, exec_claimIngressIn]
    rfl
  · simp only [hversion, ↓reduceIte, exec_emitTx]

theorem exec_dispatchBareTx (tx : Bytes) (src : Option NetAddr) :
    (dispatchBareTx env fw tx src).exec env = ShardProxy.dispatchBareTx env fw tx src := by
  simp only [dispatchBareTx, ShardProxy.dispatchBareTx, exec_bind, exec_gate, exec_process]

theorem exec_emitBlock (raw : Bytes) (bf : BlockFrame) (src : Option NetAddr) :
    (emitBlock env fw raw bf src).exec env = ShardProxy.emitBlock env fw raw bf src := by
  cases src with
  | none => exact exec_enqueue _
  | some src =>
      simp only [emitBlock, ShardProxy.emitBlock]
      split
      · exact exec_fragmentWith _
      · simp only [exec_bind, exec_emit, exec_enqueue]

theorem exec_emitAnchor (raw : Bytes) (src : Option NetAddr) :
    (emitAnchor env fw raw src).exec env = ShardProxy.emitAnchor env fw raw src := by
  cases src with
  | none => exact exec_enqueue _
  | some src => simp only [emitAnchor, ShardProxy.emitAnchor, exec_bind, exec_emit, exec_enqueue]

theorem exec_emitSubtreeData (raw : Bytes) (sf : SubtreeDataFrame) (src : Option NetAddr) :
    (emitSubtreeData env fw raw sf src).exec env =
      ShardProxy.emitSubtreeData env fw raw sf src := by
  cases src with
  | none => exact exec_enqueue _
  | some src =>
      simp only [emitSubtreeData, ShardProxy.emitSubtreeData]
      split
      · exact exec_fragmentWith _
      · simp only [exec_bind, exec_emit, exec_enqueue]

theorem exec_processBlock (raw : Bytes) (src : Option NetAddr) :
    (processBlock env fw raw src).exec env = ShardProxy.processBlock env fw raw src := by
  simp only [processBlock, ShardProxy.processBlock, exec_bind, exec_gate, claimIngress,
    ShardProxy.claimIngress, exec_claimIngressIn, exec_emitBlock]

theorem exec_processAnchor (raw : Bytes) (src : Option NetAddr) :
    (processAnchor env fw raw src).exec env = ShardProxy.processAnchor env fw raw src := by
  simp only [processAnchor, ShardProxy.processAnchor, exec_bind, exec_gate, claimIngress,
    ShardProxy.claimIngress, exec_claimIngressIn, exec_emitAnchor]

theorem exec_processSubtreeData (raw : Bytes) (src : Option NetAddr) :
    (processSubtreeData env fw raw src).exec env =
      ShardProxy.processSubtreeData env fw raw src := by
  simp only [processSubtreeData, ShardProxy.processSubtreeData, exec_bind, exec_gate,
    claimIngress, ShardProxy.claimIngress, exec_claimIngressIn, exec_emitSubtreeData]

theorem exec_processBundle (raw : Bytes) :
    (processBundle fw raw).exec env = ShardProxy.processBundle fw raw := by
  simp only [processBundle, ShardProxy.processBundle, exec_bind, exec_gate, exec_enqueue]

theorem exec_chargeBudget (src : Option NetAddr) (n : Nat) (now : Time) :
    (chargeBudget src n now).exec env = ShardProxy.chargeBudget env src n now := by
  funext st
  rw [chargeBudget, exec_bind, Fw.bind_of_ok (exec_allow src n now st), chargeBudget_apply]
  cases (st.beefLimit.allow env src n now).1 <;> rfl

theorem exec_checkBEEF (raw : Bytes) (src : Option NetAddr) (now : Time)
    (checkContentID : Bool) :
    (checkBEEF env fw raw src now checkContentID).exec env =
      ShardProxy.checkBEEF env fw raw src now checkContentID := by
  simp only [checkBEEF, ShardProxy.checkBEEF, exec_bind, exec_gate, exec_chargeBudget,
    exec_claimBEEFIngress, exec_pure]

theorem exec_emitBEEF (checked : CheckedBEEF) (src : Option NetAddr) :
    (emitBEEF env fw checked src).exec env = ShardProxy.emitBEEF env fw checked src := by
  cases src with
  | none => exact exec_enqueue _
  | some src =>
      simp only [emitBEEF, ShardProxy.emitBEEF]
      split
      · exact exec_fragmentWith _
      · simp only [exec_bind, exec_emit, exec_enqueue]

theorem exec_processBEEF (raw : Bytes) (src : Option NetAddr) (now : Time)
    (checkContentID : Bool) :
    (processBEEF env fw raw src now checkContentID).exec env =
      ShardProxy.processBEEF env fw raw src now checkContentID := by
  simp only [processBEEF, ShardProxy.processBEEF, exec_bind, exec_checkBEEF, exec_emitBEEF]

theorem exec_dispatchBEEF (p : PreparedBEEF) (src : Option NetAddr) (now : Time) :
    (dispatchBEEF env fw p src now).exec env = ShardProxy.dispatchBEEF env fw p src now := by
  rw [dispatchBEEF, ShardProxy.dispatchBEEF]
  cases p.frame with
  | none => rfl
  | some frame => exact exec_processBEEF frame src now false

theorem exec_dispatchClass (raw : Bytes) (src : Option NetAddr) (now : Time)
    (cls : IngressClass) :
    (dispatchClass env fw raw src now cls).exec env =
      ShardProxy.dispatchClass env fw raw src now cls := by
  unfold dispatchClass ShardProxy.dispatchClass
  split_ifs
  · rfl
  · exact exec_processBlock raw src
  · rfl
  · exact exec_processSubtreeData raw src
  · rfl
  · exact exec_processAnchor raw src
  · exact exec_processBEEF raw src now true
  · rfl
  · exact exec_processBundle raw
  · rfl
  · exact exec_process raw src _
  · exact exec_dispatchBEEF _ src now
  · rfl
  · exact exec_dispatchBareTx raw src

theorem exec_flushCoalesced :
    (flushCoalesced env fw).exec env = flushCoalescedFw env fw := by
  funext st
  rw [flushCoalesced, exec_bind, Fw.bind_of_ok (exec_takeMembers st), flushCoalescedFw]
  cases hcoal : st.coal with
  | none =>
      have hsame : { st with coal := none } = st := by rw [← hcoal]
      exact congrArg (Prod.mk (Except.ok ())) hsame
  | some coal =>
      simp only [exec_emit, Fw.emit, run_bind, run_pure, List.append_nil, Option.map_some]

end LaneProg

end Alone

section Operations

variable (env : Env) (groupText : UInt16 → String) (fw : Forwarder)

def EmitOp.script : EmitOp → LaneProg Unit
  | .dispatchClass raw src now cls => LaneProg.dispatchClass env fw raw src now cls
  | .process raw src => LaneProg.process env fw raw src fw.verifyPayloadHash
  | .dispatchBareTx tx src => LaneProg.dispatchBareTx env fw tx src
  | .processBlock raw src => LaneProg.processBlock env fw raw src
  | .processAnchor raw src => LaneProg.processAnchor env fw raw src
  | .processSubtreeData raw src => LaneProg.processSubtreeData env fw raw src
  | .processBEEF raw src now => LaneProg.processBEEF env fw raw src now true
  | .dispatchBEEF p src now => LaneProg.dispatchBEEF env fw p src now
  | .processBundle raw => LaneProg.processBundle fw raw
  | .flushCoalesced => LaneProg.flushCoalesced env fw
  | .forwardControl raw idx port => LaneProg.enqueue
      [enqueueControl raw ⟨groupAddr fw.mcPrefix fw.mcGroupID idx, port⟩ (groupText idx)]

/-- Run alone, every operation is what it is as a whole. -/
theorem EmitOp.exec_script (op : EmitOp) :
    (op.script env groupText fw).exec env = op.prog env groupText fw := by
  cases op with
  | dispatchClass raw src now cls => exact LaneProg.exec_dispatchClass raw src now cls
  | process raw src => exact LaneProg.exec_process raw src _
  | dispatchBareTx tx src => exact LaneProg.exec_dispatchBareTx tx src
  | processBlock raw src => exact LaneProg.exec_processBlock raw src
  | processAnchor raw src => exact LaneProg.exec_processAnchor raw src
  | processSubtreeData raw src => exact LaneProg.exec_processSubtreeData raw src
  | processBEEF raw src now => exact LaneProg.exec_processBEEF raw src now true
  | dispatchBEEF p src now => exact LaneProg.exec_dispatchBEEF p src now
  | processBundle raw => exact LaneProg.exec_processBundle raw
  | flushCoalesced => exact LaneProg.exec_flushCoalesced
  | forwardControl raw idx port => exact LaneProg.exec_enqueue _

end Operations

end ShardProxy
