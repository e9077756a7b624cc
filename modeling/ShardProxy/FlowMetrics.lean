/-
The packet counters of the recorder.  `PacketForwarded` counts a datagram twice: in the
transmitted packets of its worker and interface, and in the flow of its interface and
group, where every group has one cell per worker.  The tables behind the cells grow by
copy and swap under a lock, while others look them up without it; the calls of all
lanes are threads here, and each load, store, lock and addition is a step.
-/
import Mathlib.Data.Finset.Basic
import ShardProxy.Lib.SharedThreads

namespace ShardProxy

open SharedThreads

/-- The arguments of one `PacketForwarded` call. -/
structure PacketCall where
  iface : String
  workerID : Int
  groupIdx : Nat
  size : Nat
deriving DecidableEq

structure FlowCell where
  packets : UInt64
  bytes : UInt64
deriving DecidableEq

/-- The `float64` of a natural number, an integer again: the nearest with 53 bits, and the
even one of two. -/
def float64 (n : Nat) : Nat :=
  let ulp := 2 ^ (n.log2 - 52)
  let rest := n % ulp
  if ulp < 2 * rest ∨ (2 * rest = ulp ∧ n / ulp % 2 = 1) then (n / ulp + 1) * ulp
  else n / ulp * ulp

/-- An index of a slice of that length. -/
def inRange (workerID : Int) (length : Nat) : Prop :=
  0 ≤ workerID ∧ workerID < (length : Int)

instance (workerID : Int) (length : Nat) : Decidable (inRange workerID length) :=
  inferInstanceAs (Decidable (_ ∧ _))

/-- The state of one interface.  A `flowTable` is a list of pointers to shards, `none`
for a group never seen; of the counter handles only whether they are bound is kept. -/
structure IfaceState (I : Type) where
  iface : String
  numWorkers : Nat
  workers : List Bool
  flows : List (Option Nat)
  mu : Option I

/-- Bind the handles of a worker that has a slot.  The handle of a label is always the
same one, so binding it again changes nothing. -/
def IfaceState.bindHandle {I : Type} (s : IfaceState I) (workerID : Int) : IfaceState I :=
  if inRange workerID s.workers.length then
    { s with workers := s.workers.set workerID.toNat true }
  else s

/-- The recorder, with what it has allocated: interface states and group shards are
pointed to by their number.  The transmitted counters are vectors by worker and interface,
which count in 64 bits as long as integers are added to them.  `owner` records which state
and group a shard was made for. -/
structure Recorder (I : Type) where
  numWorkers : Int
  ifaceStates : Option (String → Option Nat)
  ifaceMu : Option I
  states : Nat → IfaceState I
  nextState : Nat
  shards : Nat → List FlowCell
  owner : Nat → Nat × Nat
  nextShard : Nat
  txPackets : Int → String → UInt64
  txBytes : Int → String → UInt64

def newRecorder (I : Type) (numWorkers : Int) : Recorder I where
  numWorkers := numWorkers
  ifaceStates := none
  ifaceMu := none
  states _ := ⟨"", 0, [], [], none⟩
  nextState := 0
  shards _ := []
  owner _ := (0, 0)
  nextShard := 0
  txPackets _ _ := 0
  txBytes _ _ := 0

/-- How many workers a new interface state is made for. -/
def workerSlots (numWorkers : Int) : Nat :=
  if numWorkers < 1 then 1 else numWorkers.toNat

/-- The entry of a table for a group. -/
def flowGroup (groups : List (Option Nat)) (groupIdx : Nat) : Option Nat :=
  (groups[groupIdx]?).join

/-- The copy of a table with room for a group, and the group's shard in it. -/
def growFlows (groups : List (Option Nat)) (groupIdx gs : Nat) : List (Option Nat) :=
  (groups ++ List.replicate (groupIdx + 1 - groups.length) none).set groupIdx (some gs)

section Recording

variable {I : Type} (r : Recorder I)

/-- The state of an interface in the map as it is loaded. -/
def Recorder.loaded (iface : String) : Option Nat :=
  r.ifaceStates.bind fun states => states iface

def Recorder.mapWith (iface : String) (st : Nat) : String → Option Nat :=
  Function.update (r.ifaceStates.getD fun _ => none) iface (some st)

def Recorder.onState (st : Nat) (f : IfaceState I → IfaceState I) : Recorder I :=
  { r with states := Function.update r.states st (f (r.states st)) }

def Recorder.onCell (gs : Nat) (workerID : Int) (f : FlowCell → FlowCell) : Recorder I :=
  { r with shards := Function.update r.shards gs ((r.shards gs).modify workerID.toNat f) }

def Recorder.newState (iface : String) : Recorder I :=
  { r with
    states := Function.update r.states r.nextState
      ⟨iface, workerSlots r.numWorkers, List.replicate (workerSlots r.numWorkers) false, [], none⟩
    nextState := r.nextState + 1 }

def Recorder.newShard (st groupIdx : Nat) : Recorder I :=
  { r with
    shards := Function.update r.shards r.nextShard
      (List.replicate (r.states st).numWorkers ⟨0, 0⟩)
    owner := Function.update r.owner r.nextShard (st, groupIdx)
    nextShard := r.nextShard + 1 }

/-- Add to the transmitted packets and bytes of a worker and an interface. -/
def Recorder.addTx (workerID : Int) (iface : String) (packets bytes : UInt64) : Recorder I :=
  { r with
    txPackets := Function.update r.txPackets workerID
      (Function.update (r.txPackets workerID) iface (r.txPackets workerID iface + packets))
    txBytes := Function.update r.txBytes workerID
      (Function.update (r.txBytes workerID) iface (r.txBytes workerID iface + bytes)) }

end Recording

/-- Where a call of `PacketForwarded` stands: in `ifaceState`, then in `worker`, at the
transmitted counters, in `addFlow` and `bindFlow`, and at the cells of the flow. -/
inductive ForwardPos where
  | start
  | lockIface
  | recheckIface
  | makeIface
  | storeIface (st : Nat) (states : String → Option Nat)
  | unlockIface (st : Nat)
  | worker (st : Nat)
  | lockWorker (st : Nat)
  | bindWorker (st : Nat)
  | unlockWorker (st : Nat)
  | txPackets (st : Nat)
  | txBytes (st : Nat)
  | addFlow (st : Nat)
  | lockFlow (st : Nat)
  | bindFlow (st : Nat)
  | storeFlow (st : Nat) (groups : List (Option Nat)) (gs : Nat)
  | unlockFlow (st gs : Nat)
  | packets (st gs : Nat)
  | bytes (st gs : Nat)
  | done

section Steps

variable {I : Type} (calls : I → PacketCall)

/-- The next step of a call; `none` while it waits for a lock, and once it has returned.
A table is never changed once it is stored, so loading it and looking it up is one step. -/
def forwardStep (i : I) : ForwardPos → Recorder I → Option (ForwardPos × Recorder I)
  | .start, r =>
      match r.loaded (calls i).iface with
      | some st => some (.worker st, r)
      | none => some (.lockIface, r)
  | .lockIface, r =>
      match r.ifaceMu with
      | none => some (.recheckIface, { r with ifaceMu := some i })
      | some _ => none
  | .recheckIface, r =>
      match r.loaded (calls i).iface with
      | some st => some (.unlockIface st, r)
      | none => some (.makeIface, r)
  | .makeIface, r =>
      some (.storeIface r.nextState (r.mapWith (calls i).iface r.nextState),
        r.newState (calls i).iface)
  | .storeIface st states, r => some (.unlockIface st, { r with ifaceStates := some states })
  | .unlockIface st, r => some (.worker st, { r with ifaceMu := none })
  | .worker st, r =>
      if inRange (calls i).workerID (r.states st).workers.length ∧
          (r.states st).workers[(calls i).workerID.toNat]? = some true then
        some (.txPackets st, r)
      else some (.lockWorker st, r)
  | .lockWorker st, r =>
      match (r.states st).mu with
      | none => some (.bindWorker st, r.onState st fun s => { s with mu := some i })
      | some _ => none
  | .bindWorker st, r =>
      some (.unlockWorker st, r.onState st fun s => s.bindHandle (calls i).workerID)
  | .unlockWorker st, r =>
      some (.txPackets st, r.onState st fun s => { s with mu := none })
  | .txPackets st, r =>
      some (.txBytes st, r.addTx (calls i).workerID (r.states st).iface 1 0)
  | .txBytes st, r =>
      some (.addFlow st, r.addTx (calls i).workerID (r.states st).iface 0
        (UInt64.ofNat (float64 (calls i).size)))
  | .addFlow st, r =>
      match flowGroup (r.states st).flows (calls i).groupIdx with
      | some gs => some (.packets st gs, r)
      | none => some (.lockFlow st, r)
  | .lockFlow st, r =>
      match (r.states st).mu with
      | none => some (.bindFlow st, r.onState st fun s => { s with mu := some i })
      | some _ => none
  | .bindFlow st, r =>
      match flowGroup (r.states st).flows (calls i).groupIdx with
      | some gs => some (.unlockFlow st gs, r)
      | none =>
          some (.storeFlow st (r.states st).flows r.nextShard, r.newShard st (calls i).groupIdx)
  | .storeFlow st groups gs, r =>
      some (.unlockFlow st gs, r.onState st fun s =>
        { s with flows := growFlows groups (calls i).groupIdx gs })
  | .unlockFlow st gs, r =>
      some (.packets st gs, r.onState st fun s => { s with mu := none })
  | .packets st gs, r =>
      if inRange (calls i).workerID (r.shards gs).length then
        some (.bytes st gs, r.onCell gs (calls i).workerID fun cell =>
          { cell with packets := cell.packets + 1 })
      else some (.done, r)
  | .bytes _ gs, r =>
      some (.done, r.onCell gs (calls i).workerID fun cell =>
        { cell with bytes := cell.bytes + UInt64.ofNat (calls i).size })
  | .done, _ => none

variable [DecidableEq I]

/-- The recorder and the calls after the turns of a schedule. -/
def forwardRun (numWorkers : Int) (schedule : List I) : Config I ForwardPos (Recorder I) :=
  Config.run (forwardStep calls) ⟨newRecorder I numWorkers, fun _ => .start⟩ schedule

end Steps

def sumCells : List FlowCell → FlowCell
  | [] => ⟨0, 0⟩
  | cell :: rest =>
      ⟨cell.packets + (sumCells rest).packets, cell.bytes + (sumCells rest).bytes⟩

/-- The cells of an interface's and a group's workers added up, if the group has cells. -/
def Recorder.summed {I : Type} (r : Recorder I) (iface : String) (groupIdx : Nat) :
    Option FlowCell :=
  (r.loaded iface).bind fun st =>
    (flowGroup (r.states st).flows groupIdx).map fun gs => sumCells (r.shards gs)

/-- Packets and bytes as a scrape gets them. -/
structure Exposed where
  packets : Nat
  bytes : Nat
deriving DecidableEq

def FlowCell.exposed (cell : FlowCell) : Exposed :=
  ⟨float64 cell.packets.toNat, float64 cell.bytes.toNat⟩

/-- The sample `Collect` sends for an interface and a group, if it sends one. -/
def Recorder.collect {I : Type} (r : Recorder I) (iface : String) (groupIdx : Nat) :
    Option Exposed :=
  (r.summed iface groupIdx).map FlowCell.exposed

/-- What the collector counts for an interface and a group. -/
def Recorder.flow {I : Type} (r : Recorder I) (iface : String) (groupIdx : Nat) : Exposed :=
  (r.collect iface groupIdx).getD ⟨0, 0⟩

/-- What is transmitted for a worker label and an interface. -/
def Recorder.tx {I : Type} (r : Recorder I) (workerID : Int) (iface : String) : Exposed :=
  ⟨float64 (r.txPackets workerID iface).toNat, float64 (r.txBytes workerID iface).toNat⟩

end ShardProxy
