/-
What the calls of `PacketForwarded` leave each other.  An interface has one state and a
group one shard, from the moment they are stored: who looks again under the lock finds
them, and a table is only ever swapped for one that has the same entries and one more.
-/
import ShardProxy.FlowMetrics

namespace ShardProxy

open SharedThreads

theorem flowGroup_growFlows (groups : List (Option Nat)) (groupIdx gs other : Nat) :
    flowGroup (growFlows groups groupIdx gs) other =
      if other = groupIdx then some gs else flowGroup groups other := by
  have hlength :
      groupIdx < (groups ++ List.replicate (groupIdx + 1 - groups.length) none).length := by
    rw [List.length_append, List.length_replicate]
    omega
  rw [flowGroup, growFlows, flowGroup]
  by_cases hself : other = groupIdx
  · subst hself
    rw [List.getElem?_set_self hlength, if_pos rfl]
    rfl
  · rw [List.getElem?_set_ne (Ne.symm hself), if_neg hself]
    rcases Nat.lt_or_ge other groups.length with hin | hout
    · rw [List.getElem?_append_left hin]
    · rw [List.getElem?_append_right hout, List.getElem?_eq_none hout, List.getElem?_replicate]
      split <;> rfl

section Fields

variable {I : Type} (r : Recorder I) {st gs other : Nat}

theorem Recorder.onState_self (st : Nat) (f : IfaceState I → IfaceState I) :
    (r.onState st f).states st = f (r.states st) :=
  Function.update_self ..

theorem Recorder.onState_of_ne (hne : other ≠ st) (f : IfaceState I → IfaceState I) :
    (r.onState st f).states other = r.states other :=
  Function.update_of_ne hne ..

theorem IfaceState.bindHandle_rest (s : IfaceState I) (workerID : Int) :
    (s.bindHandle workerID).iface = s.iface ∧
      (s.bindHandle workerID).numWorkers = s.numWorkers ∧
      (s.bindHandle workerID).flows = s.flows ∧ (s.bindHandle workerID).mu = s.mu := by
  rw [IfaceState.bindHandle]
  split <;> exact ⟨rfl, rfl, rfl, rfl⟩

theorem Recorder.newState_self (iface : String) :
    (r.newState iface).states r.nextState = ⟨iface, workerSlots r.numWorkers,
      List.replicate (workerSlots r.numWorkers) false, [], none⟩ :=
  Function.update_self ..

theorem Recorder.newState_of_ne (hne : other ≠ r.nextState) (iface : String) :
    (r.newState iface).states other = r.states other :=
  Function.update_of_ne hne ..

theorem Recorder.newShard_self (st groupIdx : Nat) :
    (r.newShard st groupIdx).shards r.nextShard =
        List.replicate (r.states st).numWorkers ⟨0, 0⟩ ∧
      (r.newShard st groupIdx).owner r.nextShard = (st, groupIdx) :=
  ⟨Function.update_self .., Function.update_self ..⟩

theorem Recorder.newShard_of_ne (hne : other ≠ r.nextShard) (st groupIdx : Nat) :
    (r.newShard st groupIdx).shards other = r.shards other ∧
      (r.newShard st groupIdx).owner other = r.owner other :=
  ⟨Function.update_of_ne hne .., Function.update_of_ne hne ..⟩

theorem Recorder.onCell_self (gs : Nat) (workerID : Int) (f : FlowCell → FlowCell) :
    (r.onCell gs workerID f).shards gs = (r.shards gs).modify workerID.toNat f :=
  Function.update_self ..

theorem Recorder.onCell_of_ne (hne : other ≠ gs) (workerID : Int) (f : FlowCell → FlowCell) :
    (r.onCell gs workerID f).shards other = r.shards other :=
  Function.update_of_ne hne ..

end Fields

/-- The state of the call's interface is in the map. -/
def PacketCall.Found {I : Type} (call : PacketCall) (r : Recorder I) (st : Nat) : Prop :=
  r.loaded call.iface = some st

/-- The shard of the call's group is in the table. -/
def PacketCall.Bound {I : Type} (call : PacketCall) (r : Recorder I) (st gs : Nat) : Prop :=
  flowGroup (r.states st).flows call.groupIdx = some gs

section Steps

variable {I : Type} (calls : I → PacketCall) (i : I) (r : Recorder I)

/-- What a step of a call can be. -/
inductive Forwards : ForwardPos → ForwardPos → Recorder I → Prop where
  | found {st : Nat} (hloaded : r.loaded (calls i).iface = some st) :
      Forwards .start (.worker st) r
  | missing : Forwards .start .lockIface r
  | ifaceLock (hfree : r.ifaceMu = none) :
      Forwards .lockIface .recheckIface { r with ifaceMu := some i }
  | refound {st : Nat} (hloaded : r.loaded (calls i).iface = some st) :
      Forwards .recheckIface (.unlockIface st) r
  | unmade (hmissing : r.loaded (calls i).iface = none) : Forwards .recheckIface .makeIface r
  | made : Forwards .makeIface
      (.storeIface r.nextState (r.mapWith (calls i).iface r.nextState))
      (r.newState (calls i).iface)
  | stored {st : Nat} {states : String → Option Nat} :
      Forwards (.storeIface st states) (.unlockIface st) { r with ifaceStates := some states }
  | ifaceUnlock {st : Nat} : Forwards (.unlockIface st) (.worker st) { r with ifaceMu := none }
  | handle {st : Nat} : Forwards (.worker st) (.txPackets st) r
  | noHandle {st : Nat} : Forwards (.worker st) (.lockWorker st) r
  | workerLock {st : Nat} (hfree : (r.states st).mu = none) :
      Forwards (.lockWorker st) (.bindWorker st) (r.onState st fun s => { s with mu := some i })
  | handled {st : Nat} : Forwards (.bindWorker st) (.unlockWorker st)
      (r.onState st fun s => s.bindHandle (calls i).workerID)
  | workerUnlock {st : Nat} : Forwards (.unlockWorker st) (.txPackets st)
      (r.onState st fun s => { s with mu := none })
  | sentPackets {st : Nat} : Forwards (.txPackets st) (.txBytes st)
      (r.addTx (calls i).workerID (r.states st).iface 1 0)
  | sentBytes {st : Nat} : Forwards (.txBytes st) (.addFlow st)
      (r.addTx (calls i).workerID (r.states st).iface 0
        (UInt64.ofNat (float64 (calls i).size)))
  | shard {st gs : Nat} (hbound : (calls i).Bound r st gs) :
      Forwards (.addFlow st) (.packets st gs) r
  | noShard {st : Nat} : Forwards (.addFlow st) (.lockFlow st) r
  | flowLock {st : Nat} (hfree : (r.states st).mu = none) :
      Forwards (.lockFlow st) (.bindFlow st) (r.onState st fun s => { s with mu := some i })
  | reshard {st gs : Nat} (hbound : (calls i).Bound r st gs) :
      Forwards (.bindFlow st) (.unlockFlow st gs) r
  | newShard {st : Nat} (hmissing : flowGroup (r.states st).flows (calls i).groupIdx = none) :
      Forwards (.bindFlow st) (.storeFlow st (r.states st).flows r.nextShard)
        (r.newShard st (calls i).groupIdx)
  | grown {st gs : Nat} {groups : List (Option Nat)} :
      Forwards (.storeFlow st groups gs) (.unlockFlow st gs)
        (r.onState st fun s => { s with flows := growFlows groups (calls i).groupIdx gs })
  | flowUnlock {st gs : Nat} : Forwards (.unlockFlow st gs) (.packets st gs)
      (r.onState st fun s => { s with mu := none })
  | counted {st gs : Nat} (hin : inRange (calls i).workerID (r.shards gs).length) :
      Forwards (.packets st gs) (.bytes st gs)
        (r.onCell gs (calls i).workerID fun cell => ⟨cell.packets + 1, cell.bytes + 0⟩)
  | uncounted {st gs : Nat} (hout : ¬ inRange (calls i).workerID (r.shards gs).length) :
      Forwards (.packets st gs) .done r
  | sized {st gs : Nat} : Forwards (.bytes st gs) .done
      (r.onCell gs (calls i).workerID fun cell =>
        ⟨cell.packets + 0, cell.bytes + UInt64.ofNat (calls i).size⟩)

variable {calls i r}

theorem forwards_of_step {p p' : ForwardPos} {r' : Recorder I}
    (hstep : forwardStep calls i p r = some (p', r')) : Forwards calls i r p p' r' := by
  cases p with
  | start =>
      simp only [forwardStep] at hstep
      split at hstep
      · cases hstep
        exact .found (by assumption)
      · cases hstep
        exact .missing
  | lockIface =>
      simp only [forwardStep] at hstep
      split at hstep
      · cases hstep
        exact .ifaceLock (by assumption)
      · cases hstep
  | recheckIface =>
      simp only [forwardStep] at hstep
      split at hstep
      · cases hstep
        exact .refound (by assumption)
      · cases hstep
        exact .unmade (by assumption)
  | makeIface => cases hstep; exact .made
  | storeIface st states => cases hstep; exact .stored
  | unlockIface st => cases hstep; exact .ifaceUnlock
  | worker st =>
      simp only [forwardStep] at hstep
      split at hstep
      · cases hstep
        exact .handle
      · cases hstep
        exact .noHandle
  | lockWorker st =>
      simp only [forwardStep] at hstep
      split at hstep
      · cases hstep
        exact .workerLock (by assumption)
      · cases hstep
  | bindWorker st => cases hstep; exact .handled
  | unlockWorker st => cases hstep; exact .workerUnlock
  | txPackets st => cases hstep; exact .sentPackets
  | txBytes st => cases hstep; exact .sentBytes
  | addFlow st =>
      simp only [forwardStep] at hstep
      split at hstep
      · cases hstep
        exact .shard (by assumption)
      · cases hstep
        exact .noShard
  | lockFlow st =>
      simp only [forwardStep] at hstep
      split at hstep
      · cases hstep
        exact .flowLock (by assumption)
      · cases hstep
  | bindFlow st =>
      simp only [forwardStep] at hstep
      split at hstep
      · cases hstep
        exact .reshard (by assumption)
      · cases hstep
        exact .newShard (by assumption)
  | storeFlow st groups gs => cases hstep; exact .grown
  | unlockFlow st gs => cases hstep; exact .flowUnlock
  | packets st gs =>
      simp only [forwardStep] at hstep
      split at hstep
      · cases hstep
        simpa only [UInt64.add_zero] using Forwards.counted (by assumption)
      · cases hstep
        exact .uncounted (by assumption)
  | bytes st gs =>
      cases hstep
      simpa only [UInt64.add_zero] using Forwards.sized
  | done => cases hstep

end Steps

section Discipline

variable {I : Type}

/-- An interface state as `ifaceState` makes it. -/
def IfaceState.MadeFor (s : IfaceState I) (iface : String) (slots : Nat) : Prop :=
  s.iface = iface ∧ s.numWorkers = slots

/-- What holds of the recorder at any time: a state is its interface's, and a shard is
its group's and has a cell for each worker. -/
structure Recorder.Sound (numWorkers : Int) (r : Recorder I) : Prop where
  workers : r.numWorkers = numWorkers
  mapped : ∀ iface st, r.loaded iface = some st →
    st < r.nextState ∧ (r.states st).MadeFor iface (workerSlots numWorkers)
  owned : ∀ st groupIdx gs, flowGroup (r.states st).flows groupIdx = some gs →
    gs < r.nextShard ∧ r.owner gs = (st, groupIdx)
  cells : ∀ gs < r.nextShard, (r.shards gs).length = workerSlots numWorkers

/-- A state made for the call's interface and not stored yet. -/
structure PacketCall.Storing (call : PacketCall) (numWorkers : Int) (r : Recorder I) (st : Nat)
    (states : String → Option Nat) : Prop where
  missing : r.loaded call.iface = none
  copied : states = r.mapWith call.iface st
  allocated : st < r.nextState
  made : (r.states st).MadeFor call.iface (workerSlots numWorkers)
  empty : (r.states st).flows = []

/-- A shard made for the call's group and not stored yet. -/
structure PacketCall.Growing (call : PacketCall) (numWorkers : Int) (r : Recorder I) (st : Nat)
    (groups : List (Option Nat)) (gs : Nat) : Prop where
  copied : (r.states st).flows = groups
  missing : flowGroup groups call.groupIdx = none
  allocated : gs < r.nextShard
  owned : r.owner gs = (st, call.groupIdx)
  zero : r.shards gs = List.replicate (workerSlots numWorkers) ⟨0, 0⟩

/-- What a call stands on. -/
def Stands (numWorkers : Int) (calls : I → PacketCall) (i : I) :
    ForwardPos → Recorder I → Prop
  | .start, _ => True
  | .lockIface, _ => True
  | .recheckIface, r => r.ifaceMu = some i
  | .makeIface, r => r.ifaceMu = some i ∧ r.loaded (calls i).iface = none
  | .storeIface st states, r => r.ifaceMu = some i ∧ (calls i).Storing numWorkers r st states
  | .unlockIface st, r => r.ifaceMu = some i ∧ (calls i).Found r st
  | .worker st, r => (calls i).Found r st
  | .lockWorker st, r => (calls i).Found r st
  | .bindWorker st, r => (calls i).Found r st ∧ (r.states st).mu = some i
  | .unlockWorker st, r => (calls i).Found r st ∧ (r.states st).mu = some i
  | .txPackets st, r => (calls i).Found r st
  | .txBytes st, r => (calls i).Found r st
  | .addFlow st, r => (calls i).Found r st
  | .lockFlow st, r => (calls i).Found r st
  | .bindFlow st, r => (calls i).Found r st ∧ (r.states st).mu = some i
  | .storeFlow st groups gs, r => (calls i).Found r st ∧ (r.states st).mu = some i ∧
      (calls i).Growing numWorkers r st groups gs
  | .unlockFlow st gs, r => (calls i).Found r st ∧ (r.states st).mu = some i ∧
      (calls i).Bound r st gs
  | .packets st gs, r => (calls i).Found r st ∧ (calls i).Bound r st gs
  | .bytes st gs, r => (calls i).Found r st ∧ (calls i).Bound r st gs ∧
      inRange (calls i).workerID (workerSlots numWorkers)
  | .done, _ => True

/-- What a step of one call leaves to the others: entries stay, what another call holds
the lock of does not change, and what is not stored yet is nobody else's. -/
structure Yields (i : I) (r r' : Recorder I) : Prop where
  loaded : ∀ iface st, r.loaded iface = some st → r'.loaded iface = some st
  ifaceLocked : ∀ j ≠ i, r.ifaceMu = some j →
    r'.ifaceMu = some j ∧ r'.ifaceStates = r.ifaceStates
  nextState : r.nextState ≤ r'.nextState
  made : ∀ st < r.nextState, (r'.states st).iface = (r.states st).iface ∧
    (r'.states st).numWorkers = (r.states st).numWorkers
  stateLocked : ∀ j ≠ i, ∀ st < r.nextState, (r.states st).mu = some j →
    (r'.states st).mu = some j ∧ (r'.states st).flows = (r.states st).flows
  unstored : ∀ st < r.nextState, (∀ iface, r.loaded iface ≠ some st) →
    r'.states st = r.states st
  bound : ∀ st < r.nextState, ∀ groupIdx gs, flowGroup (r.states st).flows groupIdx = some gs →
    flowGroup (r'.states st).flows groupIdx = some gs
  nextShard : r.nextShard ≤ r'.nextShard
  owner : ∀ gs < r.nextShard, r'.owner gs = r.owner gs
  unbound : ∀ gs < r.nextShard, flowGroup (r.states (r.owner gs).1).flows (r.owner gs).2 = none →
    r'.shards gs = r.shards gs

variable {numWorkers : Int} {calls : I → PacketCall} {i j : I} {r r' : Recorder I}

theorem Yields.refl (i : I) (r : Recorder I) : Yields i r r where
  loaded _ _ hloaded := hloaded
  ifaceLocked _ _ hlocked := ⟨hlocked, rfl⟩
  nextState := le_refl _
  made _ _ := ⟨rfl, rfl⟩
  stateLocked _ _ _ _ hlocked := ⟨hlocked, rfl⟩
  unstored _ _ _ := rfl
  bound _ _ _ _ hbound := hbound
  nextShard := le_refl _
  owner _ _ := rfl
  unbound _ _ _ := rfl

theorem Yields.found {call : PacketCall} {st : Nat} (hyields : Yields i r r')
    (hfound : call.Found r st) : call.Found r' st :=
  hyields.loaded _ _ hfound

theorem Recorder.Sound.allocated {call : PacketCall} {st : Nat} (hsound : r.Sound numWorkers)
    (hfound : call.Found r st) : st < r.nextState :=
  (hsound.mapped _ _ hfound).1

theorem Yields.locked {call : PacketCall} {st : Nat} (hyields : Yields i r r') (hj : j ≠ i)
    (hsound : r.Sound numWorkers) (hfound : call.Found r st)
    (hmu : (r.states st).mu = some j) : (r'.states st).mu = some j :=
  (hyields.stateLocked j hj st (hsound.allocated hfound) hmu).1

theorem Yields.boundTo {call : PacketCall} {st gs : Nat} (hyields : Yields i r r')
    (hsound : r.Sound numWorkers) (hfound : call.Found r st) (hbound : call.Bound r st gs) :
    call.Bound r' st gs :=
  hyields.bound st (hsound.allocated hfound) _ gs hbound

/-- What a call is about to store stays as it made it. -/
theorem Yields.storing {call : PacketCall} {st : Nat} {states : String → Option Nat}
    (hyields : Yields i r r') (hsound : r.Sound numWorkers)
    (hsame : r'.ifaceStates = r.ifaceStates) (hstoring : call.Storing numWorkers r st states) :
    call.Storing numWorkers r' st states := by
  obtain ⟨hmissing, hcopied, hallocated, hmade, hempty⟩ := hstoring
  have hnobody : ∀ iface, r.loaded iface ≠ some st := by
    intro iface hloaded
    have hiface := (hsound.mapped iface st hloaded).2.1
    rw [hmade.1] at hiface
    rw [← hiface, hmissing] at hloaded
    cases hloaded
  have hstate := hyields.unstored st hallocated hnobody
  refine ⟨?_, ?_, hallocated.trans_le hyields.nextState, hstate ▸ hmade, hstate ▸ hempty⟩
  · rw [Recorder.loaded, hsame]
    exact hmissing
  · rw [hcopied, Recorder.mapWith, Recorder.mapWith, hsame]

theorem Yields.growing {call : PacketCall} {st gs : Nat} {groups : List (Option Nat)}
    (hyields : Yields i r r') (hj : j ≠ i) (hallocated : st < r.nextState)
    (hmu : (r.states st).mu = some j) (hgrowing : call.Growing numWorkers r st groups gs) :
    call.Growing numWorkers r' st groups gs := by
  obtain ⟨hcopied, hmissing, hshard, howned, hzero⟩ := hgrowing
  have hflows := (hyields.stateLocked j hj st hallocated hmu).2
  have hkept : r'.shards gs = r.shards gs := by
    apply hyields.unbound gs hshard
    rw [howned, hcopied]
    exact hmissing
  exact ⟨hflows.trans hcopied, hmissing, hshard.trans_le hyields.nextShard,
    (hyields.owner gs hshard).trans howned, hkept.trans hzero⟩

/-- What a call stands on is not undone by the others. -/
theorem Stands.stable {p : ForwardPos} (hj : j ≠ i) (hsound : r.Sound numWorkers)
    (hstands : Stands numWorkers calls j p r) (hyields : Yields i r r') :
    Stands numWorkers calls j p r' := by
  cases p with
  | start => trivial
  | lockIface => trivial
  | recheckIface => exact (hyields.ifaceLocked j hj hstands).1
  | makeIface =>
      obtain ⟨hmu, hmissing⟩ := hstands
      obtain ⟨hmu', hsame⟩ := hyields.ifaceLocked j hj hmu
      refine ⟨hmu', ?_⟩
      rw [Recorder.loaded, hsame]
      exact hmissing
  | storeIface st states =>
      obtain ⟨hmu, hstoring⟩ := hstands
      obtain ⟨hmu', hsame⟩ := hyields.ifaceLocked j hj hmu
      exact ⟨hmu', hyields.storing hsound hsame hstoring⟩
  | unlockIface st =>
      exact ⟨(hyields.ifaceLocked j hj hstands.1).1, hyields.found hstands.2⟩
  | worker st => exact hyields.found hstands
  | lockWorker st => exact hyields.found hstands
  | bindWorker st =>
      exact ⟨hyields.found hstands.1, hyields.locked hj hsound hstands.1 hstands.2⟩
  | unlockWorker st =>
      exact ⟨hyields.found hstands.1, hyields.locked hj hsound hstands.1 hstands.2⟩
  | txPackets st => exact hyields.found hstands
  | txBytes st => exact hyields.found hstands
  | addFlow st => exact hyields.found hstands
  | lockFlow st => exact hyields.found hstands
  | bindFlow st =>
      exact ⟨hyields.found hstands.1, hyields.locked hj hsound hstands.1 hstands.2⟩
  | storeFlow st groups gs =>
      obtain ⟨hfound, hmu, hgrowing⟩ := hstands
      exact ⟨hyields.found hfound, hyields.locked hj hsound hfound hmu,
        hyields.growing hj (hsound.allocated hfound) hmu hgrowing⟩
  | unlockFlow st gs =>
      obtain ⟨hfound, hmu, hbound⟩ := hstands
      exact ⟨hyields.found hfound, hyields.locked hj hsound hfound hmu,
        hyields.boundTo hsound hfound hbound⟩
  | packets st gs =>
      exact ⟨hyields.found hstands.1, hyields.boundTo hsound hstands.1 hstands.2⟩
  | bytes st gs =>
      obtain ⟨hfound, hbound, hin⟩ := hstands
      exact ⟨hyields.found hfound, hyields.boundTo hsound hfound hbound, hin⟩
  | done => trivial

end Discipline

section Effects

variable {I : Type} {numWorkers : Int} {calls : I → PacketCall} {i : I} {r : Recorder I}
variable {st gs : Nat}

theorem flowGroup_nil (groupIdx : Nat) : flowGroup [] groupIdx = none :=
  rfl

/-- A change of a stored state that its lock is held for, or that takes or releases it. -/
structure Recorder.Guarded (r : Recorder I) (i : I) (st : Nat) (s' : IfaceState I) : Prop where
  stored : ∃ iface, r.loaded iface = some st
  mine : ∀ j ≠ i, (r.states st).mu ≠ some j
  made : s'.iface = (r.states st).iface ∧ s'.numWorkers = (r.states st).numWorkers
  bound : ∀ groupIdx gs, flowGroup (r.states st).flows groupIdx = some gs →
    flowGroup s'.flows groupIdx = some gs

theorem Recorder.Guarded.yields {f : IfaceState I → IfaceState I}
    (hguarded : r.Guarded i st (f (r.states st))) : Yields i r (r.onState st f) := by
  obtain ⟨hstored, hmine, hmade, hbound⟩ := hguarded
  refine { Yields.refl i r with made := ?_, stateLocked := ?_, unstored := ?_, bound := ?_ }
  · intro other _
    by_cases hst : other = st
    · subst hst
      rw [r.onState_self]
      exact hmade
    · rw [r.onState_of_ne hst]
      exact ⟨rfl, rfl⟩
  · intro j hj other _ hlocked
    by_cases hst : other = st
    · exact absurd (hst ▸ hlocked) (hmine j hj)
    · rw [r.onState_of_ne hst]
      exact ⟨hlocked, rfl⟩
  · intro other _ hnobody
    apply r.onState_of_ne
    rintro rfl
    obtain ⟨iface, hloaded⟩ := hstored
    exact hnobody iface hloaded
  · intro other _ groupIdx gs hgroup
    by_cases hst : other = st
    · subst hst
      rw [r.onState_self]
      exact hbound groupIdx gs hgroup
    · rw [r.onState_of_ne hst]
      exact hgroup

theorem Recorder.Sound.onState {f : IfaceState I → IfaceState I} (hsound : r.Sound numWorkers)
    (hguarded : r.Guarded i st (f (r.states st)))
    (howned : ∀ groupIdx gs, flowGroup (f (r.states st)).flows groupIdx = some gs →
      gs < r.nextShard ∧ r.owner gs = (st, groupIdx)) :
    (r.onState st f).Sound numWorkers := by
  refine { hsound with mapped := ?_, owned := ?_ }
  · intro iface other hloaded
    obtain ⟨hallocated, hmade⟩ := hsound.mapped iface other hloaded
    refine ⟨hallocated, ?_⟩
    by_cases hst : other = st
    · subst hst
      rw [r.onState_self]
      exact ⟨hguarded.made.1.trans hmade.1, hguarded.made.2.trans hmade.2⟩
    · rw [r.onState_of_ne hst]
      exact hmade
  · intro other groupIdx gs hgroup
    by_cases hst : other = st
    · subst hst
      rw [r.onState_self] at hgroup
      exact howned groupIdx gs hgroup
    · rw [r.onState_of_ne hst] at hgroup
      exact hsound.owned other groupIdx gs hgroup

/-- A change that leaves the table of the state alone. -/
theorem Recorder.Sound.onState_aside {f : IfaceState I → IfaceState I}
    (hsound : r.Sound numWorkers) (hguarded : r.Guarded i st (f (r.states st)))
    (hflows : (f (r.states st)).flows = (r.states st).flows) :
    (r.onState st f).Sound numWorkers := by
  apply hsound.onState hguarded
  intro groupIdx gs hgroup
  rw [hflows] at hgroup
  exact hsound.owned st groupIdx gs hgroup

theorem Recorder.Sound.newState (hsound : r.Sound numWorkers) (iface : String) :
    (r.newState iface).Sound numWorkers := by
  refine { hsound with mapped := ?_, owned := ?_ }
  · intro name st hloaded
    obtain ⟨hallocated, hmade⟩ := hsound.mapped name st hloaded
    rw [r.newState_of_ne hallocated.ne]
    exact ⟨hallocated.trans (Nat.lt_succ_self _), hmade⟩
  · intro st groupIdx gs hgroup
    by_cases hst : st = r.nextState
    · subst hst
      rw [r.newState_self, flowGroup_nil] at hgroup
      cases hgroup
    · rw [r.newState_of_ne hst] at hgroup
      exact hsound.owned st groupIdx gs hgroup

theorem Yields.newState (i : I) (r : Recorder I) (iface : String) :
    Yields i r (r.newState iface) := by
  refine { Yields.refl i r with
    nextState := Nat.le_succ _, made := ?_, stateLocked := ?_, unstored := ?_, bound := ?_ }
  · intro st hst
    rw [r.newState_of_ne hst.ne]
    exact ⟨rfl, rfl⟩
  · intro j _ st hst hlocked
    rw [r.newState_of_ne hst.ne]
    exact ⟨hlocked, rfl⟩
  · intro st hst _
    exact r.newState_of_ne hst.ne iface
  · intro st hst groupIdx gs hgroup
    rw [r.newState_of_ne hst.ne]
    exact hgroup

theorem loaded_stored {call : PacketCall} {states : String → Option Nat}
    (hstoring : call.Storing numWorkers r st states) (iface : String) :
    Recorder.loaded { r with ifaceStates := some states } iface =
      if iface = call.iface then some st else r.loaded iface := by
  rw [Recorder.loaded, Option.bind_some, hstoring.copied, Recorder.mapWith]
  by_cases hself : iface = call.iface
  · subst hself
    rw [Function.update_self, if_pos rfl]
  · rw [Function.update_of_ne hself, if_neg hself, Recorder.loaded]
    cases r.ifaceStates with
    | none => rfl
    | some states => rfl

theorem Recorder.Sound.stored {call : PacketCall} {states : String → Option Nat}
    (hsound : r.Sound numWorkers) (hstoring : call.Storing numWorkers r st states) :
    Recorder.Sound numWorkers { r with ifaceStates := some states } := by
  refine { hsound with mapped := ?_ }
  intro iface other hloaded
  rw [loaded_stored hstoring] at hloaded
  split_ifs at hloaded with hself
  · cases hloaded
    exact ⟨hstoring.allocated, hself ▸ hstoring.made⟩
  · exact hsound.mapped iface other hloaded

theorem Yields.stored {call : PacketCall} {states : String → Option Nat}
    (hmu : r.ifaceMu = some i) (hstoring : call.Storing numWorkers r st states) :
    Yields i r { r with ifaceStates := some states } := by
  refine { Yields.refl i r with loaded := ?_, ifaceLocked := ?_ }
  · intro iface other hloaded
    rw [loaded_stored hstoring, if_neg]
    · exact hloaded
    · rintro rfl
      rw [hstoring.missing] at hloaded
      cases hloaded
  · intro j hj hlocked
    exact absurd (Option.some.inj (hlocked.symm.trans hmu)) hj

theorem Recorder.Sound.newShard (hsound : r.Sound numWorkers)
    (hmade : (r.states st).numWorkers = workerSlots numWorkers) (groupIdx : Nat) :
    (r.newShard st groupIdx).Sound numWorkers := by
  refine { hsound with owned := ?_, cells := ?_ }
  · intro other group gs hgroup
    obtain ⟨hallocated, howner⟩ := hsound.owned other group gs hgroup
    refine ⟨hallocated.trans (Nat.lt_succ_self _), ?_⟩
    rw [(r.newShard_of_ne hallocated.ne st groupIdx).2]
    exact howner
  · intro gs hgs
    rcases Nat.lt_succ_iff_lt_or_eq.mp hgs with hold | rfl
    · rw [(r.newShard_of_ne hold.ne st groupIdx).1]
      exact hsound.cells gs hold
    · rw [(r.newShard_self st groupIdx).1, List.length_replicate, hmade]

theorem Yields.newShard (i : I) (r : Recorder I) (st groupIdx : Nat) :
    Yields i r (r.newShard st groupIdx) where
  __ := Yields.refl i r
  nextShard := Nat.le_succ _
  owner _ hgs := (r.newShard_of_ne hgs.ne st groupIdx).2
  unbound _ hgs _ := (r.newShard_of_ne hgs.ne st groupIdx).1

theorem Recorder.Sound.onCell (hsound : r.Sound numWorkers) (gs : Nat) (workerID : Int)
    (f : FlowCell → FlowCell) : (r.onCell gs workerID f).Sound numWorkers := by
  refine { hsound with cells := ?_ }
  intro other hother
  by_cases hgs : other = gs
  · subst hgs
    rw [r.onCell_self, List.length_modify]
    exact hsound.cells other hother
  · rw [r.onCell_of_ne hgs]
    exact hsound.cells other hother

/-- Only cells that the collector sees are changed. -/
theorem Yields.onCell {call : PacketCall} (hsound : r.Sound numWorkers)
    (hbound : call.Bound r st gs) (i : I) (workerID : Int) (f : FlowCell → FlowCell) :
    Yields i r (r.onCell gs workerID f) := by
  refine { Yields.refl i r with unbound := ?_ }
  intro other _ hnone
  apply r.onCell_of_ne
  rintro rfl
  rw [(hsound.owned _ _ _ hbound).2] at hnone
  cases hnone.symm.trans hbound

/-- Taking a lock that is free, or doing something with one that is held. -/
theorem PacketCall.Found.guarded {call : PacketCall} (hfound : call.Found r st)
    (hmu : (r.states st).mu = none ∨ (r.states st).mu = some i) {s' : IfaceState I}
    (hmade : s'.iface = (r.states st).iface ∧ s'.numWorkers = (r.states st).numWorkers)
    (hbound : ∀ groupIdx gs, flowGroup (r.states st).flows groupIdx = some gs →
      flowGroup s'.flows groupIdx = some gs) : r.Guarded i st s' := by
  refine ⟨⟨_, hfound⟩, ?_, hmade, hbound⟩
  intro j hj hlocked
  rcases hmu with hfree | hheld
  · cases hfree.symm.trans hlocked
  · exact hj (Option.some.inj (hlocked.symm.trans hheld))

variable {p p' : ForwardPos} {r' : Recorder I}

/-- A lock of an interface state taken or released, or a handle bound. -/
theorem PacketCall.Found.aside {call : PacketCall} (hfound : call.Found r st)
    (hsound : r.Sound numWorkers) (hmu : (r.states st).mu = none ∨ (r.states st).mu = some i)
    (f : IfaceState I → IfaceState I)
    (hmade : (f (r.states st)).iface = (r.states st).iface ∧
      (f (r.states st)).numWorkers = (r.states st).numWorkers)
    (hflows : (f (r.states st)).flows = (r.states st).flows) :
    (r.onState st f).Sound numWorkers ∧ Yields i r (r.onState st f) := by
  have hguarded : r.Guarded i st (f (r.states st)) :=
    hfound.guarded hmu hmade fun groupIdx gs hgroup => hflows.symm ▸ hgroup
  exact ⟨hsound.onState_aside hguarded hflows, hguarded.yields⟩

/-- The table with one more shard, stored under the lock. -/
theorem PacketCall.Growing.grown {call : PacketCall} {groups : List (Option Nat)}
    (hgrowing : call.Growing numWorkers r st groups gs) (hfound : call.Found r st)
    (hsound : r.Sound numWorkers) (hmu : (r.states st).mu = some i) :
    let r' := r.onState st fun s => { s with flows := growFlows groups call.groupIdx gs }
    r'.Sound numWorkers ∧ Yields i r r' ∧ call.Bound r' st gs := by
  intro r'
  have hguarded : r.Guarded i st
      { r.states st with flows := growFlows groups call.groupIdx gs } := by
    refine hfound.guarded (Or.inr hmu) ⟨rfl, rfl⟩ ?_
    intro groupIdx bound hgroup
    rw [hgrowing.copied] at hgroup
    rw [flowGroup_growFlows, if_neg]
    · exact hgroup
    · rintro rfl
      cases hgrowing.missing.symm.trans hgroup
  refine ⟨hsound.onState hguarded ?_, hguarded.yields, ?_⟩
  · intro groupIdx bound hgroup
    rw [flowGroup_growFlows] at hgroup
    split_ifs at hgroup with hself
    · cases hgroup
      exact ⟨hgrowing.allocated, hself ▸ hgrowing.owned⟩
    · exact hsound.owned st groupIdx bound (hgrowing.copied.symm ▸ hgroup)
  · rw [PacketCall.Bound, r.onState_self, flowGroup_growFlows, if_pos rfl]

theorem Forwards.own (hstep : Forwards calls i r p p' r') (hsound : r.Sound numWorkers)
    (hstands : Stands numWorkers calls i p r) :
    r'.Sound numWorkers ∧ Stands numWorkers calls i p' r' ∧ Yields i r r' := by
  cases hstep with
  | found hloaded => exact ⟨hsound, hloaded, .refl i r⟩
  | missing => exact ⟨hsound, trivial, .refl i r⟩
  | ifaceLock hfree =>
      refine ⟨{ hsound with }, rfl, { Yields.refl i r with ifaceLocked := ?_ }⟩
      intro j _ hlocked
      cases hfree.symm.trans hlocked
  | refound hloaded => exact ⟨hsound, ⟨hstands, hloaded⟩, .refl i r⟩
  | unmade hmissing => exact ⟨hsound, ⟨hstands, hmissing⟩, .refl i r⟩
  | made =>
      obtain ⟨hmu, hmissing⟩ := hstands
      refine ⟨hsound.newState _, ⟨hmu, hmissing, rfl, Nat.lt_succ_self _, ?_, ?_⟩, .newState ..⟩
      · rw [r.newState_self, ← hsound.workers]
        exact ⟨rfl, rfl⟩
      · rw [r.newState_self]
  | stored =>
      obtain ⟨hmu, hstoring⟩ := hstands
      refine ⟨hsound.stored hstoring, ⟨hmu, ?_⟩, .stored hmu hstoring⟩
      rw [PacketCall.Found, loaded_stored hstoring, if_pos rfl]
  | ifaceUnlock =>
      obtain ⟨hmu, hfound⟩ := hstands
      refine ⟨{ hsound with }, hfound, { Yields.refl i r with ifaceLocked := ?_ }⟩
      intro j hj hlocked
      exact absurd (Option.some.inj (hlocked.symm.trans hmu)) hj
  | handle => exact ⟨hsound, hstands, .refl i r⟩
  | noHandle => exact ⟨hsound, hstands, .refl i r⟩
  | workerLock hfree =>
      obtain ⟨hsound', hyields⟩ := hstands.aside hsound (Or.inl hfree)
        (fun s => { s with mu := some i }) ⟨rfl, rfl⟩ rfl
      exact ⟨hsound', ⟨hstands, by rw [r.onState_self]⟩, hyields⟩
  | @handled st =>
      obtain ⟨hfound, hmu⟩ := hstands
      have hkeeps := (r.states st).bindHandle_rest (calls i).workerID
      obtain ⟨hsound', hyields⟩ := hfound.aside hsound (Or.inr hmu)
        (fun s => s.bindHandle (calls i).workerID) ⟨hkeeps.1, hkeeps.2.1⟩ hkeeps.2.2.1
      exact ⟨hsound', ⟨hfound, by rw [r.onState_self, hkeeps.2.2.2]; exact hmu⟩, hyields⟩
  | workerUnlock =>
      obtain ⟨hfound, hmu⟩ := hstands
      obtain ⟨hsound', hyields⟩ := hfound.aside hsound (Or.inr hmu)
        (fun s => { s with mu := none }) ⟨rfl, rfl⟩ rfl
      exact ⟨hsound', hfound, hyields⟩
  | sentPackets => exact ⟨{ hsound with }, hstands, { Yields.refl i r with }⟩
  | sentBytes => exact ⟨{ hsound with }, hstands, { Yields.refl i r with }⟩
  | shard hbound => exact ⟨hsound, ⟨hstands, hbound⟩, .refl i r⟩
  | noShard => exact ⟨hsound, hstands, .refl i r⟩
  | flowLock hfree =>
      obtain ⟨hsound', hyields⟩ := hstands.aside hsound (Or.inl hfree)
        (fun s => { s with mu := some i }) ⟨rfl, rfl⟩ rfl
      exact ⟨hsound', ⟨hstands, by rw [r.onState_self]⟩, hyields⟩
  | reshard hbound => exact ⟨hsound, ⟨hstands.1, hstands.2, hbound⟩, .refl i r⟩
  | newShard hmissing =>
      obtain ⟨hfound, hmu⟩ := hstands
      have hmade := (hsound.mapped _ _ hfound).2.2
      obtain ⟨hzero, howned⟩ := r.newShard_self _ (calls i).groupIdx
      exact ⟨hsound.newShard hmade _, ⟨hfound, hmu, rfl, hmissing, Nat.lt_succ_self _, howned,
        hmade ▸ hzero⟩, .newShard ..⟩
  | grown =>
      obtain ⟨hfound, hmu, hgrowing⟩ := hstands
      obtain ⟨hsound', hyields, hbound⟩ := hgrowing.grown hfound hsound hmu
      exact ⟨hsound', ⟨hfound, by rw [r.onState_self]; exact hmu, hbound⟩, hyields⟩
  | flowUnlock =>
      obtain ⟨hfound, hmu, hbound⟩ := hstands
      obtain ⟨hsound', hyields⟩ := hfound.aside hsound (Or.inr hmu)
        (fun s => { s with mu := none }) ⟨rfl, rfl⟩ rfl
      exact ⟨hsound', ⟨hfound, hyields.boundTo hsound hfound hbound⟩, hyields⟩
  | counted hin =>
      obtain ⟨hfound, hbound⟩ := hstands
      rw [hsound.cells _ (hsound.owned _ _ _ hbound).1] at hin
      exact ⟨hsound.onCell .., ⟨hfound, hbound, hin⟩, .onCell hsound hbound ..⟩
  | uncounted => exact ⟨hsound, trivial, .refl i r⟩
  | sized =>
      obtain ⟨-, hbound, -⟩ := hstands
      exact ⟨hsound.onCell .., trivial, .onCell hsound hbound ..⟩

theorem forwardStep_discipline [DecidableEq I] (numWorkers : Int) (calls : I → PacketCall) :
    Discipline (forwardStep calls) (Recorder.Sound numWorkers) (Stands numWorkers calls)
      Yields where
  own hsound hstands hstep := (forwards_of_step hstep).own hsound hstands
  stable hj hsound hstands hyields := Stands.stable hj hsound hstands hyields

end Effects

end ShardProxy
