/-
The forwarder's transaction and control-plane paths.  Each entry point is a
computation on the forwarder's state that ends or stops with a drop; what was
done before the drop stays done.  The checks ahead of the dedup claim read no
state and are kept apart as gates.
-/
import Mathlib.Data.Finset.Basic
import ShardProxy.Coalesce
import ShardProxy.SubtreeRoot

namespace ShardProxy

open ByteField Chunks Dispenser

/-- The reasons a packet is counted as dropped under. -/
inductive DropReason where
  | decodeError
  | stampedIngress
  | ingressNotEF
  | payloadNotOneTx
  | payloadHashMismatch
  | bareTxMalformed
  | bareTxNotEF
  | bareTxReframe
  | fragOverflow
  | bundleShort
  | bundleMalformed
  | beefDisabled
  | beefBadRecord
  | beefOversize
  | beefNoTopic
  | beefTopicMismatch
  | beefBadMarker
  | beefRateSource
  | beefRatePlane
  | beefBadContentID
  | nonBEEFOnBEEFLane
deriving DecidableEq

def DropReason.text : DropReason → String
  | .decodeError => "decode_error"
  | .stampedIngress => "stamped_ingress"
  | .ingressNotEF => "ingress_not_ef"
  | .payloadNotOneTx => "payload_not_one_tx"
  | .payloadHashMismatch => "payload_hash_mismatch"
  | .bareTxMalformed => "bare_tx_malformed"
  | .bareTxNotEF => "bare_tx_not_ef"
  | .bareTxReframe => "bare_tx_reframe"
  | .fragOverflow => "frag_overflow"
  | .bundleShort => "bundle_short"
  | .bundleMalformed => "bundle_malformed"
  | .beefDisabled => "beef_disabled"
  | .beefBadRecord => "beef_bad_record"
  | .beefOversize => "beef_oversize"
  | .beefNoTopic => "beef_no_topic"
  | .beefTopicMismatch => "beef_topic_mismatch"
  | .beefBadMarker => "beef_bad_marker"
  | .beefRateSource => "beef_rate_source"
  | .beefRatePlane => "beef_rate_plane"
  | .beefBadContentID => "beef_bad_contentid"
  | .nonBEEFOnBEEFLane => "non_beef_on_beef_lane"

/-- The result of preparing a BEEF submission record. -/
inductive BEEFResult where
  | ok
  | disabled
  | malformed
  | oversize
  | badMarker
deriving DecidableEq

/-- Why an input was not forwarded: a counted packet drop, a lost dedup claim,
a miner-tier frame on an open socket, a failed proof-of-work or merkle-root
gate, or a refused submission record. -/
inductive Drop where
  | packet (reason : DropReason)
  | deduped (frameType : String)
  | privileged (frameType : String)
  | blockPoW
  | subtreeRoot (error : SubtreeError)
  | submission (result : BEEFResult)
deriving DecidableEq

/-- The forwarder's state and one worker's egress queue: the flow counters, the
dedup stores, the BEEF budgets, the published bridging engine, the queued
datagrams and the coalescing buffer, if the worker has one. -/
@[ext] structure FwState where
  chains : Chains
  stores : Nat → Finset (String × Hash32)
  beefLimit : BEEFLimiter
  bridging : Option Engine
  queue : List EnqueueReq
  coal : Option CoalBuffer

/-- A computation of the forwarder. -/
def Fw (A : Type) : Type := FwState → Except Drop A × FwState

namespace Fw

variable {A B : Type}

def bind (x : Fw A) (next : A → Fw B) : Fw B := fun st =>
  match x st with
  | (.ok result, st) => next result st
  | (.error drop, st) => (.error drop, st)

instance : Monad Fw where
  pure result := fun st => (.ok result, st)
  bind := Fw.bind

@[simp] theorem pure_apply (result : A) (st : FwState) :
    (pure result : Fw A) st = (.ok result, st) := rfl

theorem bind_apply (x : Fw A) (next : A → Fw B) (st : FwState) :
    (x >>= next) st =
      match x st with
      | (.ok result, st) => next result st
      | (.error drop, st) => (.error drop, st) := rfl

def fail (drop : Drop) : Fw A := fun st => (.error drop, st)

def gate (check : Except Drop A) : Fw A := fun st => (check, st)

/-- Run a program that numbers and queues datagrams. -/
def emit (prog : Emit A) : Fw A := fun st =>
  let ran := run prog st.chains
  (.ok ran.result,
    { st with chains := ran.registry, queue := st.queue ++ ran.outputs })

@[simp] theorem fail_apply (drop : Drop) (st : FwState) :
    (fail drop : Fw A) st = (.error drop, st) := rfl

@[simp] theorem gate_apply (check : Except Drop A) (st : FwState) :
    gate check st = (check, st) := rfl

theorem gate_bind_ok {check : Except Drop A} {result : A} (hcheck : check = .ok result)
    (next : A → Fw B) (st : FwState) : (gate check >>= next) st = next result st := by
  rw [hcheck]
  rfl

theorem gate_bind_error {check : Except Drop A} {drop : Drop} (hcheck : check = .error drop)
    (next : A → Fw B) (st : FwState) : (gate check >>= next) st = (.error drop, st) := by
  rw [hcheck]
  rfl

theorem bind_of_error {x : Fw A} {st after : FwState} {drop : Drop}
    (hx : x st = (.error drop, after)) (next : A → Fw B) :
    (x >>= next) st = (.error drop, after) := by
  rw [bind_apply, hx]

theorem bind_of_ok {x : Fw A} {st after : FwState} {result : A}
    (hx : x st = (.ok result, after)) (next : A → Fw B) :
    (x >>= next) st = next result after := by
  rw [bind_apply, hx]

theorem pure_bind (result : A) (next : A → Fw B) :
    (pure result : Fw A) >>= next = next result := rfl

theorem bind_assoc {C : Type} (x : Fw A) (f : A → Fw B) (g : B → Fw C) :
    x >>= f >>= g = x >>= fun result => f result >>= g := by
  funext st
  simp only [bind_apply]
  rcases x st with ⟨result | drop, after⟩ <;> rfl

end Fw

def sendAll : List EnqueueReq → Emit PUnit
  | [] => pure ⟨⟩
  | req :: rest => do
      send req
      sendAll rest

@[simp] theorem run_sendAll (reqs : List EnqueueReq) (chains : Chains) :
    run (sendAll reqs) chains = ⟨⟨⟩, chains, reqs⟩ := by
  induction reqs with
  | nil => rfl
  | cons req rest ih => simp [sendAll, ih]

section Claims

variable (fw : Forwarder)

/-- First claim wins: a claimed id stops the frame as a duplicate.  Without a
store every frame goes on. -/
def claimIngressIn (dedup : Option DedupRef) (id : Hash32) (frameType : String) : Fw Unit :=
  fun st =>
    match dedup with
    | none => (.ok (), st)
    | some ref =>
        if (ref.keySpace, id) ∈ st.stores ref.store then (.error (.deduped frameType), st)
        else
          (.ok (), { st with
            stores := Function.update st.stores ref.store
              (insert (ref.keySpace, id) (st.stores ref.store)) })

def claimIngress (id : Hash32) (frameType : String) : Fw Unit :=
  claimIngressIn fw.txDedup id frameType

/-- The object plane claims in its own store when it has one. -/
def claimBEEFIngress (key : Hash32) (frameType : String) : Fw Unit :=
  match fw.beefDedup with
  | some ref => claimIngressIn (some ref) key frameType
  | none => claimIngressIn fw.txDedup key frameType

end Claims

section Paths

variable (env : Env) (fw : Forwarder)

/-- Split a payload, unless it takes more fragments than their count can say. -/
def fragmentWith (plan : FragPlan) : Fw Unit :=
  if 65535 < fw.fragTotal plan.payload then Fw.fail (.packet .fragOverflow)
  else
    Fw.emit do
      fragmentLoop env fw plan (fw.fragTotal plan.payload)
        (List.range (fw.fragTotal plan.payload))
      pure ()

def fragment (f : Frame) (ip : IPv6) (groupIdx : UInt32) : Fw Unit :=
  fragmentWith env fw (fragmentPlan fw f ip groupIdx)

def fragmentBlock (raw : Bytes) (bf : BlockFrame) (ip : IPv6) (ctrlIdx : UInt32) : Fw Unit :=
  fragmentWith env fw (fragmentBlockPlan fw raw bf ip ctrlIdx)

def fragmentSubtreeData (raw : Bytes) (sf : SubtreeDataFrame) (ip : IPv6)
    (ctrlIdx : UInt32) : Fw Unit :=
  fragmentWith env fw (fragmentSubtreeDataPlan fw raw sf ip ctrlIdx)

def fragmentBEEF (bf : BEEFFrame) (ip : IPv6) (groupIdx : UInt32) : Fw Unit :=
  fragmentWith env fw (fragmentBEEFPlan fw bf ip groupIdx)

def enqueue (reqs : List EnqueueReq) : Fw Unit :=
  Fw.emit do
    sendAll reqs
    pure ()

/-- The copy for the successor layout while a bridging engine is published and
puts the transaction into another group. -/
def bridgeCopy (bridging : Option Engine) (f : Frame) (groupIdx : UInt32) (raw : Bytes) :
    List EnqueueReq :=
  match bridging with
  | none => []
  | some secondary =>
      let bridgeIdx := secondary.groupIndex f.txID
      if bridgeIdx ≠ groupIdx then [enqueueData raw (fw.addrFor bridgeIdx) bridgeIdx] else []

/-- Queue a whole transaction frame for its group and the successor's. -/
def enqueueTx (f : Frame) (groupIdx : UInt32) (raw : Bytes) : Fw Unit := fun st =>
  enqueue (enqueueData raw (fw.addrFor groupIdx) groupIdx ::
    bridgeCopy fw st.bridging f groupIdx raw) st

/-- Whether a transaction waits for a bundle instead of leaving by itself. -/
def coalesces (st : FwState) (payload : Bytes) : Prop :=
  fw.coalesce ∧ st.coal.isSome ∧ st.bridging.isNone ∧
    ((bundleHeaderSize + env.memberOverhead fw.coalesceCarryTxid + payload.length : Nat) : Int) ≤
      fw.coalesceBudget

instance (st : FwState) (payload : Bytes) : Decidable (coalesces env fw st payload) :=
  inferInstanceAs (Decidable (_ ∧ _))

/-- Put a member into the worker's coalescing buffer. -/
def bufferMember (flow : ChainKey) (member : Member) : Fw Unit := fun st =>
  (.ok (), { st with coal := st.coal.map fun coal => coal.add flow member })

/-- The checks of a transaction frame: it decodes, is not stamped on a
submission lane, is Extended Format where required, and its payload is the one
transaction its TxID names where that is verified. -/
def txGates (raw : Bytes) (verify : Bool) : Except Drop Frame :=
  match env.decode raw with
  | none => .error (.packet .decodeError)
  | some f =>
      if fw.allowStampedIngress = false ∧ f.version = frameVerV2 ∧ f.seqNum ≠ 0 then
        .error (.packet .stampedIngress)
      else if fw.requireEF ∧ (f.version = frameVerV1 ∨ env.isEF f.payload = false) then
        .error (.packet .ingressNotEF)
      else if verify ∧ f.version = frameVerV2 ∧
          env.txSize f.payload ≠ some f.payload.length then
        .error (.packet .payloadNotOneTx)
      else if verify ∧ f.version = frameVerV2 ∧ env.txID f.payload ≠ some f.txID then
        .error (.packet .payloadHashMismatch)
      else .ok f

/-- Send an admitted transaction: V2 from a source is fragmented, coalesced or
stamped; V1 and relayed frames leave as they came. -/
def emitTx (raw : Bytes) (f : Frame) (src : Option NetAddr) : Fw Unit := fun st =>
  let groupIdx := fw.engine.groupIndex f.txID
  match src with
  | none => enqueueTx fw f groupIdx raw st
  | some src =>
      if f.version ≠ frameVerV2 then enqueueTx fw f groupIdx raw st
      else
        let ip := addrToIPv6 src
        if fw.fragments f.payload then fragment env fw f ip groupIdx st
        else if coalesces env fw st f.payload then
          bufferMember ⟨ip, groupIdx, f.subtreeID⟩ ⟨f.txID, f.payload⟩ st
        else
          (do
            let raw ← Fw.emit (stampInPlace env fw raw ⟨ip, groupIdx, f.subtreeID⟩)
            enqueueTx fw f groupIdx raw) st

/-- `process`; `verify` is false only for a frame the proxy built itself. -/
def process (raw : Bytes) (src : Option NetAddr) (verify : Bool) : Fw Unit := do
  let f ← Fw.gate (txGates env fw raw verify)
  if f.version = frameVerV2 then claimIngress fw f.txID "brc124"
  emitTx env fw raw f src

/-- `Process` -/
def processFrame (raw : Bytes) (src : Option NetAddr) : Fw Unit :=
  process env fw raw src fw.verifyPayloadHash

/-- The checks of a bare transaction, and the frame built around it. -/
def bareTxGates (tx : Bytes) : Except Drop Bytes :=
  if env.txSize tx ≠ some tx.length then .error (.packet .bareTxMalformed)
  else if fw.requireEF ∧ env.isEF tx = false then .error (.packet .bareTxNotEF)
  else
    match env.multicastBytes tx with
    | none => .error (.packet .bareTxReframe)
    | some framed => .ok framed

def dispatchBareTx (tx : Bytes) (src : Option NetAddr) : Fw Unit := do
  let framed ← Fw.gate (bareTxGates env fw tx)
  process env fw framed src false

/-- A block announce must carry valid work where that is required. -/
def blockGates (raw : Bytes) : Except Drop BlockFrame :=
  match env.decodeBlock raw with
  | none => .error (.packet .decodeError)
  | some bf =>
      if fw.requireBlockPoW ∧ bf.msgType = blockMsgAnnounce ∧
          (bf.payload.length < env.powHeaderSize ∨
            env.powCheckHeader (bf.payload.take env.powHeaderSize) fw.powFloor = false) then
        .error .blockPoW
      else .ok bf

/-- Announces and coinbase transactions count on flows of their own. -/
def blockCtrlIdx (bf : BlockFrame) : UInt32 :=
  if bf.msgType = blockMsgCoinbase then groupCoinbaseFlow.toUInt32
  else groupBlockBroadcast.toUInt32

def emitBlock (raw : Bytes) (bf : BlockFrame) (src : Option NetAddr) : Fw Unit :=
  let req (raw : Bytes) := enqueueCacheable raw (fw.controlAddr groupBlockBroadcast)
    "block_control"
  match src with
  | none => enqueue [req raw]
  | some src =>
      let ip := addrToIPv6 src
      if fw.fragments bf.payload then fragmentBlock env fw raw bf ip (blockCtrlIdx bf)
      else do
        let raw ← Fw.emit (stampInPlace env fw raw ⟨ip, blockCtrlIdx bf, zeroHash⟩)
        enqueue [req raw]

def processBlock (raw : Bytes) (src : Option NetAddr) : Fw Unit := do
  let bf ← Fw.gate (blockGates env fw raw)
  claimIngress fw bf.contentID "brc131"
  emitBlock env fw raw bf src

def anchorGates (raw : Bytes) : Except Drop Frame :=
  match env.decodeAnchor raw with
  | none => .error (.packet .decodeError)
  | some f => .ok f

/-- Anchors go to the block group under a flow of their own, never split. -/
def emitAnchor (raw : Bytes) (src : Option NetAddr) : Fw Unit :=
  let req (raw : Bytes) := enqueueCacheable raw (fw.controlAddr groupBlockBroadcast) "anchor"
  match src with
  | none => enqueue [req raw]
  | some src => do
      let raw ← Fw.emit
        (stampInPlace env fw raw ⟨addrToIPv6 src, groupAnchorFlow.toUInt32, zeroHash⟩)
      enqueue [req raw]

def processAnchor (raw : Bytes) (src : Option NetAddr) : Fw Unit := do
  let f ← Fw.gate (anchorGates env raw)
  claimIngress fw f.txID "brc134"
  emitAnchor env fw raw src

/-- The merkle-root gate stands ahead of the claim. -/
def subtreeGates (raw : Bytes) : Except Drop SubtreeDataFrame :=
  match env.decodeSubtreeData raw with
  | none => .error (.packet .decodeError)
  | some sf =>
      if fw.verifySubtreeRoot then
        match verifySubtreePayload env sf.subtreeID sf.msgType sf.payload with
        | .error error => .error (.subtreeRoot error)
        | .ok () => .ok sf
      else .ok sf

def emitSubtreeData (raw : Bytes) (sf : SubtreeDataFrame) (src : Option NetAddr) : Fw Unit :=
  let req (raw : Bytes) := enqueueCacheable raw (fw.controlAddr groupSubtreeDataAnnounce)
    "subtree_data"
  let ctrlIdx := groupSubtreeDataAnnounce.toUInt32
  match src with
  | none => enqueue [req raw]
  | some src =>
      let ip := addrToIPv6 src
      if fw.fragments sf.payload then fragmentSubtreeData env fw raw sf ip ctrlIdx
      else do
        let raw ← Fw.emit (stampInPlace env fw raw ⟨ip, ctrlIdx, sf.subtreeID⟩)
        enqueue [req raw]

def processSubtreeData (raw : Bytes) (src : Option NetAddr) : Fw Unit := do
  let sf ← Fw.gate (subtreeGates env fw raw)
  claimIngress fw sf.subtreeID "brc132"
  emitSubtreeData env fw raw sf src

/-- The checks of a relayed bundle: its header is there, its magic is right and
its payload length is not past the datagram. -/
def bundleGates (raw : Bytes) : Except Drop Unit :=
  if raw.length < bundleHeaderSize then .error (.packet .bundleShort)
  else if uint32At raw 0 ≠ magicBSV ∨
      raw.length < bundleHeaderSize + (uint32At raw 62).toNat then
    .error (.packet .bundleMalformed)
  else .ok ()

/-- The group a bundle's header names. -/
def bundleGroup (raw : Bytes) : UInt32 :=
  (uint16At raw 56).toUInt32

/-- Re-emit a bundle unchanged to the group its header names. -/
def processBundle (raw : Bytes) : Fw Unit := do
  Fw.gate (bundleGates raw)
  enqueue [enqueueData raw (fw.addrFor (bundleGroup raw)) (bundleGroup raw)]

/-- `FlushCoalesced`: bundle the waiting members and empty the buffer. -/
def flushCoalescedFw : Fw Unit := fun st =>
  match st.coal with
  | none => (.ok (), st)
  | some coal =>
      let ran := run (flushCoalesced env fw coal) st.chains
      (.ok (), { st with
        chains := ran.registry
        queue := st.queue ++ ran.outputs
        coal := some coal.reset })

end Paths

end ShardProxy
