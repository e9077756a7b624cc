/-
The flow counters and the transmitted counters over every interleaving.  An addition to
a cell of a flow is one that the collector sees, so the flows count every call whose
worker has a cell.  The TCP and push lanes call with worker -1, which has none.
-/
import Mathlib.Algebra.BigOperators.Group.Finset.Piecewise
import Mathlib.Algebra.BigOperators.Group.Finset.Sigma
import Mathlib.Algebra.BigOperators.Pi
import Mathlib.Algebra.Order.BigOperators.Group.Finset
import Mathlib.Data.UInt
import ShardProxy.FlowDiscipline

namespace ShardProxy

open SharedThreads

section Cells

theorem sumCells_zeros (count : Nat) : sumCells (List.replicate count ⟨0, 0⟩) = ⟨0, 0⟩ := by
  induction count with
  | zero => rfl
  | succ count ih =>
      rw [List.replicate_succ, sumCells, ih]
      rfl

theorem sumCells_modify (packets bytes : UInt64) {cells : List FlowCell} {w : Nat}
    (hw : w < cells.length) :
    sumCells (cells.modify w fun cell => ⟨cell.packets + packets, cell.bytes + bytes⟩) =
      ⟨(sumCells cells).packets + packets, (sumCells cells).bytes + bytes⟩ := by
  induction cells generalizing w with
  | nil => exact absurd hw (Nat.not_lt_zero w)
  | cons cell rest ih =>
      cases w with
      | zero =>
          rw [List.modify_zero_cons, sumCells, sumCells, add_right_comm,
            add_right_comm cell.bytes]
      | succ w =>
          rw [List.modify_succ_cons, sumCells, ih (Nat.lt_of_succ_lt_succ hw), sumCells]
          simp only [add_assoc]

/-- What a `float64` can count exactly it shows as it is. -/
theorem float64_of_lt {n : Nat} (hn : n < 2 ^ 53) : float64 n = n := by
  have hlog : n.log2 - 52 = 0 := by
    rcases Nat.eq_zero_or_pos n with rfl | hpos
    · rfl
    · have := (Nat.log2_lt hpos.ne').mpr hn
      omega
  simp only [float64, hlog, pow_zero, Nat.mod_one, Nat.div_one, mul_zero, mul_one]
  exact if_neg (by omega)

/-- Amounts added up in 64 bits, and shown, are added up exactly below the bound. -/
theorem float64_sum {I : Type} [Fintype I] (amount : I → Nat) (hfew : ∑ i, amount i < 2 ^ 53) :
    float64 (∑ i, UInt64.ofNat (amount i)).toNat = ∑ i, amount i := by
  have hsum := map_sum (⟨⟨UInt64.ofNat, rfl⟩, UInt64.ofNat_add⟩ : Nat →+ UInt64) amount
    Finset.univ
  have hexact : (∑ i, UInt64.ofNat (amount i)).toNat = ∑ i, amount i := by
    rw [← show UInt64.ofNat (∑ i, amount i) = ∑ i, UInt64.ofNat (amount i) from hsum]
    exact UInt64.toNat_ofNat_of_lt' (hfew.trans (by decide))
  rw [hexact, float64_of_lt hfew]

end Cells

section Flows

/-- The sums behind what the collector counts. -/
def Recorder.cell {I : Type} (r : Recorder I) (iface : String) (groupIdx : Nat) : FlowCell :=
  (r.summed iface groupIdx).getD ⟨0, 0⟩

theorem Recorder.flow_eq {I : Type} (r : Recorder I) (iface : String) (groupIdx : Nat) :
    r.flow iface groupIdx = (r.cell iface groupIdx).exposed := by
  rw [Recorder.flow, Recorder.collect, Recorder.cell]
  cases r.summed iface groupIdx <;> rfl

variable {I : Type} {numWorkers : Int} {calls : I → PacketCall} {i : I} {r r' : Recorder I}
variable {iface : String} {groupIdx st gs : Nat}

theorem Recorder.cell_of_bound (hloaded : r.loaded iface = some st)
    (hgroup : flowGroup (r.states st).flows groupIdx = some gs) :
    r.cell iface groupIdx = sumCells (r.shards gs) := by
  rw [Recorder.cell, Recorder.summed, hloaded, Option.bind_some, hgroup]
  rfl

theorem Recorder.cell_of_unbound (hloaded : r.loaded iface = some st)
    (hgroup : flowGroup (r.states st).flows groupIdx = none) : r.cell iface groupIdx = ⟨0, 0⟩ := by
  rw [Recorder.cell, Recorder.summed, hloaded, Option.bind_some, hgroup]
  rfl

theorem Recorder.cell_of_missing (hloaded : r.loaded iface = none) :
    r.cell iface groupIdx = ⟨0, 0⟩ := by
  rw [Recorder.cell, Recorder.summed, hloaded]
  rfl

/-- A flow is the same as long as the way to its cells and the cells are. -/
theorem Recorder.cell_congr (hloaded : r'.loaded iface = r.loaded iface)
    (hgroup : ∀ st, r.loaded iface = some st →
      flowGroup (r'.states st).flows groupIdx = flowGroup (r.states st).flows groupIdx)
    (hcells : ∀ st gs, r.loaded iface = some st →
      flowGroup (r.states st).flows groupIdx = some gs → r'.shards gs = r.shards gs) :
    r'.cell iface groupIdx = r.cell iface groupIdx := by
  cases hstate : r.loaded iface with
  | none => rw [cell_of_missing (hloaded.trans hstate), cell_of_missing hstate]
  | some st =>
      cases hbound : flowGroup (r.states st).flows groupIdx with
      | none =>
          rw [cell_of_unbound (hloaded.trans hstate) ((hgroup st hstate).trans hbound),
            cell_of_unbound hstate hbound]
      | some gs =>
          rw [cell_of_bound (hloaded.trans hstate) ((hgroup st hstate).trans hbound),
            cell_of_bound hstate hbound, hcells st gs hstate hbound]

theorem Recorder.cell_onState {f : IfaceState I → IfaceState I}
    (hflows : (f (r.states st)).flows = (r.states st).flows) (iface : String) (groupIdx : Nat) :
    (r.onState st f).cell iface groupIdx = r.cell iface groupIdx := by
  refine Recorder.cell_congr rfl (fun other _ => ?_) fun _ _ _ _ => rfl
  by_cases hst : other = st
  · subst hst
    rw [r.onState_self, hflows]
  · rw [r.onState_of_ne hst]

theorem Recorder.Sound.cell_newState (hsound : r.Sound numWorkers) (name iface : String)
    (groupIdx : Nat) : (r.newState name).cell iface groupIdx = r.cell iface groupIdx := by
  refine Recorder.cell_congr rfl (fun st hloaded => ?_) fun _ _ _ _ => rfl
  rw [r.newState_of_ne (hsound.mapped _ _ hloaded).1.ne]

theorem Recorder.Sound.cell_newShard (hsound : r.Sound numWorkers) (st group : Nat)
    (iface : String) (groupIdx : Nat) :
    (r.newShard st group).cell iface groupIdx = r.cell iface groupIdx := by
  refine Recorder.cell_congr rfl (fun _ _ => rfl) fun other gs _ hbound => ?_
  exact (r.newShard_of_ne (hsound.owned _ _ _ hbound).1.ne st group).1

theorem PacketCall.Storing.cell {call : PacketCall} {states : String → Option Nat}
    (hstoring : call.Storing numWorkers r st states) (iface : String) (groupIdx : Nat) :
    Recorder.cell { r with ifaceStates := some states } iface groupIdx =
      r.cell iface groupIdx := by
  have hloaded := loaded_stored hstoring iface
  by_cases hself : iface = call.iface
  · subst hself
    rw [if_pos rfl] at hloaded
    have hnone : flowGroup (r.states st).flows groupIdx = none := by
      rw [hstoring.empty]
      rfl
    rw [Recorder.cell_of_missing hstoring.missing]
    exact Recorder.cell_of_unbound hloaded hnone
  · rw [if_neg hself] at hloaded
    exact Recorder.cell_congr hloaded (fun _ _ => rfl) fun _ _ _ _ => rfl

theorem PacketCall.Growing.cell {call : PacketCall} {groups : List (Option Nat)}
    (hgrowing : call.Growing numWorkers r st groups gs) (iface : String) (groupIdx : Nat) :
    (r.onState st fun s => { s with flows := growFlows groups call.groupIdx gs }).cell
      iface groupIdx = r.cell iface groupIdx := by
  cases hloaded : r.loaded iface with
  | none =>
      rw [Recorder.cell_of_missing hloaded]
      exact Recorder.cell_of_missing hloaded
  | some other =>
      by_cases hself : other = st ∧ groupIdx = call.groupIdx
      · obtain ⟨rfl, rfl⟩ := hself
        have hbefore := Recorder.cell_of_unbound hloaded (hgrowing.copied.symm ▸ hgrowing.missing)
        rw [hbefore, ← sumCells_zeros (workerSlots numWorkers), ← hgrowing.zero]
        refine Recorder.cell_of_bound hloaded ?_
        rw [r.onState_self, flowGroup_growFlows, if_pos rfl]
      · refine Recorder.cell_congr rfl (fun found hfound => ?_) fun _ _ _ _ => rfl
        by_cases hst : found = st
        · have hne : groupIdx ≠ call.groupIdx := by
            rintro rfl
            exact hself ⟨(Option.some.inj (hloaded.symm.trans hfound)).trans hst, rfl⟩
          rw [hst, r.onState_self, flowGroup_growFlows, if_neg hne, hgrowing.copied]
        · rw [r.onState_of_ne hst]

/-- An addition to a cell is an addition to the flow of the call, and to no other. -/
theorem Recorder.Sound.cell_onCell {call : PacketCall} (hsound : r.Sound numWorkers)
    (hfound : call.Found r st) (hbound : call.Bound r st gs)
    (hin : inRange call.workerID (workerSlots numWorkers)) (packets bytes : UInt64)
    (iface : String) (groupIdx : Nat) :
    (r.onCell gs call.workerID fun cell =>
      ⟨cell.packets + packets, cell.bytes + bytes⟩).cell iface groupIdx =
      if call.iface = iface ∧ call.groupIdx = groupIdx then
        ⟨(r.cell iface groupIdx).packets + packets, (r.cell iface groupIdx).bytes + bytes⟩
      else r.cell iface groupIdx := by
  obtain ⟨hallocated, howner⟩ := hsound.owned _ _ _ hbound
  split_ifs with hself
  · obtain ⟨rfl, rfl⟩ := hself
    have hw : call.workerID.toNat < (r.shards gs).length := by
      rw [hsound.cells gs hallocated]
      obtain ⟨hlow, hhigh⟩ := hin
      omega
    rw [Recorder.cell_of_bound hfound hbound, ← sumCells_modify packets bytes hw]
    have hafter := Recorder.cell_of_bound
      (r := r.onCell gs call.workerID fun cell => ⟨cell.packets + packets, cell.bytes + bytes⟩)
      hfound hbound
    rw [hafter, r.onCell_self]
  · refine Recorder.cell_congr rfl (fun _ _ => rfl) fun other shard hloaded hgroup => ?_
    apply r.onCell_of_ne
    rintro rfl
    -- The shard is that of one state and one group, and the state that of one interface.
    have hsame := (hsound.owned _ _ _ hgroup).2.symm.trans howner
    obtain ⟨rfl, rfl⟩ := Prod.mk.inj hsame
    have hiface := (hsound.mapped _ _ hloaded).2.1
    rw [(hsound.mapped _ _ hfound).2.1] at hiface
    exact hself ⟨hiface, rfl⟩

end Flows

section Shares

variable {I : Type} (numWorkers : Int) (call : PacketCall) (iface : String)

/-- The call is one of a flow, and its worker has a cell. -/
def PacketCall.Flows (groupIdx : Nat) : Prop :=
  call.iface = iface ∧ call.groupIdx = groupIdx ∧
    inRange call.workerID (workerSlots numWorkers)

instance (groupIdx : Nat) : Decidable (call.Flows numWorkers iface groupIdx) :=
  inferInstanceAs (Decidable (_ ∧ _))

/-- The packets and bytes a call has added to its flow, if its worker has a cell. -/
def ForwardPos.counted (size : UInt64) : ForwardPos → UInt64 × UInt64
  | .bytes _ _ => (1, 0)
  | .done => (1, size)
  | _ => (0, 0)

/-- The transmitted packets and bytes a call has added. -/
def ForwardPos.sent (size : UInt64) : ForwardPos → UInt64 × UInt64
  | .txBytes _ => (1, 0)
  | .addFlow _ => (1, size)
  | .lockFlow _ => (1, size)
  | .bindFlow _ => (1, size)
  | .storeFlow _ _ _ => (1, size)
  | .unlockFlow _ _ => (1, size)
  | .packets _ _ => (1, size)
  | .bytes _ _ => (1, size)
  | .done => (1, size)
  | _ => (0, 0)

def flowShare (groupIdx : Nat) (p : ForwardPos) : UInt64 × UInt64 :=
  if call.Flows numWorkers iface groupIdx then p.counted (.ofNat call.size) else (0, 0)

def txShare (workerID : Int) (p : ForwardPos) : UInt64 × UInt64 :=
  if call.iface = iface ∧ call.workerID = workerID then p.sent (.ofNat (float64 call.size))
  else (0, 0)

def Recorder.flowTally (r : Recorder I) (iface : String) (groupIdx : Nat) : UInt64 × UInt64 :=
  ((r.cell iface groupIdx).packets, (r.cell iface groupIdx).bytes)

def Recorder.txTally (r : Recorder I) (workerID : Int) (iface : String) : UInt64 × UInt64 :=
  (r.txPackets workerID iface, r.txBytes workerID iface)

variable {numWorkers call iface} {calls : I → PacketCall} {i : I} {r r' : Recorder I}
variable {p p' : ForwardPos} {groupIdx : Nat} {workerID : Int}

theorem Recorder.addTx_tally (r : Recorder I) (call : PacketCall) (packets bytes : UInt64)
    (workerID : Int) (iface : String) :
    (r.addTx call.workerID call.iface packets bytes).txTally workerID iface =
      r.txTally workerID iface +
        if call.iface = iface ∧ call.workerID = workerID then (packets, bytes) else (0, 0) := by
  by_cases hworker : call.workerID = workerID
  · subst hworker
    by_cases hiface : call.iface = iface
    · subst hiface
      rw [if_pos ⟨rfl, rfl⟩]
      simp only [Recorder.txTally, Recorder.addTx, Function.update_self, Prod.mk_add_mk]
    · rw [if_neg fun hboth => hiface hboth.1]
      simp only [Recorder.txTally, Recorder.addTx, Function.update_self,
        Function.update_of_ne (Ne.symm hiface), Prod.mk_add_mk, add_zero]
  · rw [if_neg fun hboth => hworker hboth.2]
    simp only [Recorder.txTally, Recorder.addTx, Function.update_of_ne (Ne.symm hworker),
      Prod.mk_add_mk, add_zero]

/-- The transmitted counters are where the calls say they left them. -/
theorem Forwards.txTally (hstep : Forwards calls i r p p' r') (hsound : r.Sound numWorkers)
    (hstands : Stands numWorkers calls i p r) :
    r'.txTally workerID iface + txShare (calls i) iface workerID p =
      r.txTally workerID iface + txShare (calls i) iface workerID p' := by
  cases hstep with
  | sentPackets =>
      have hiface := (hsound.mapped _ _ hstands).2.1
      rw [hiface, Recorder.addTx_tally, txShare, txShare]
      split_ifs <;> simp only [ForwardPos.sent, Prod.mk_zero_zero, add_zero]
  | sentBytes =>
      have hiface := (hsound.mapped _ _ hstands).2.1
      rw [hiface, Recorder.addTx_tally, txShare, txShare]
      split_ifs
      · simp only [Recorder.txTally, ForwardPos.sent, Prod.mk_add_mk, add_zero]
      · simp only [Prod.mk_zero_zero, add_zero]
  | _ => rfl

theorem flowTally_onCell (hsound : r.Sound numWorkers) {st gs : Nat}
    (hfound : (calls i).Found r st) (hbound : (calls i).Bound r st gs)
    (hin : inRange (calls i).workerID (workerSlots numWorkers)) (packets bytes : UInt64) :
    (r.onCell gs (calls i).workerID fun cell =>
      ⟨cell.packets + packets, cell.bytes + bytes⟩).flowTally iface groupIdx =
      r.flowTally iface groupIdx +
        if (calls i).Flows numWorkers iface groupIdx then (packets, bytes) else (0, 0) := by
  rw [Recorder.flowTally, hsound.cell_onCell hfound hbound hin]
  by_cases hself : (calls i).iface = iface ∧ (calls i).groupIdx = groupIdx
  · rw [if_pos hself, if_pos ⟨hself.1, hself.2, hin⟩]
    rfl
  · rw [if_neg hself, if_neg fun hflows => hself ⟨hflows.1, hflows.2.1⟩, Prod.mk_zero_zero,
      add_zero, Recorder.flowTally]

theorem Forwards.flowTally (hstep : Forwards calls i r p p' r') (hsound : r.Sound numWorkers)
    (hstands : Stands numWorkers calls i p r) :
    r'.flowTally iface groupIdx + flowShare numWorkers (calls i) iface groupIdx p =
      r.flowTally iface groupIdx + flowShare numWorkers (calls i) iface groupIdx p' := by
  have hkept : r'.cell iface groupIdx = r.cell iface groupIdx →
      r'.flowTally iface groupIdx = r.flowTally iface groupIdx := by
    intro hflow
    rw [Recorder.flowTally, hflow]
    rfl
  cases hstep with
  | made => rw [hkept (hsound.cell_newState ..)]; rfl
  | stored => rw [hkept (hstands.2.cell ..)]; rfl
  | workerLock => rw [hkept (Recorder.cell_onState rfl ..)]; rfl
  | handled =>
      rw [hkept (Recorder.cell_onState (IfaceState.bindHandle_rest _ _).2.2.1 ..)]
      rfl
  | workerUnlock => rw [hkept (Recorder.cell_onState rfl ..)]; rfl
  | flowLock => rw [hkept (Recorder.cell_onState rfl ..)]; rfl
  | newShard => rw [hkept (hsound.cell_newShard ..)]; rfl
  | grown => rw [hkept (hstands.2.2.cell ..)]; rfl
  | flowUnlock => rw [hkept (Recorder.cell_onState rfl ..)]; rfl
  | counted hin =>
      obtain ⟨hfound, hbound⟩ := hstands
      rw [hsound.cells _ (hsound.owned _ _ _ hbound).1] at hin
      rw [flowTally_onCell hsound hfound hbound hin, flowShare, flowShare]
      split_ifs <;> simp only [ForwardPos.counted, Prod.mk_zero_zero, add_zero]
  | uncounted hout =>
      rw [hsound.cells _ (hsound.owned _ _ _ hstands.2).1] at hout
      have hnone : ¬ (calls i).Flows numWorkers iface groupIdx := fun hflows => hout hflows.2.2
      rw [flowShare, flowShare, if_neg hnone, if_neg hnone]
  | sized =>
      obtain ⟨hfound, hbound, hin⟩ := hstands
      rw [flowTally_onCell hsound hfound hbound hin, flowShare, flowShare]
      split_ifs
      · simp only [Recorder.flowTally, ForwardPos.counted, Prod.mk_add_mk, add_zero]
      · simp only [Prod.mk_zero_zero, add_zero]
  | _ => rfl

theorem newRecorder_sound (I : Type) (numWorkers : Int) :
    (newRecorder I numWorkers).Sound numWorkers where
  workers := rfl
  mapped _ _ hloaded := by cases hloaded
  owned _ _ _ hbound := by cases hbound
  cells gs hgs := absurd hgs (Nat.not_lt_zero gs)

theorem start_stands (numWorkers : Int) (calls : I → PacketCall) :
    Config.Stands (Recorder.Sound numWorkers) (Stands numWorkers calls)
      ⟨newRecorder I numWorkers, fun _ => .start⟩ :=
  ⟨newRecorder_sound I numWorkers, fun _ => trivial⟩

end Shares

section Runs

variable {I : Type} [DecidableEq I] [Fintype I] {numWorkers : Int} {calls : I → PacketCall}
variable {schedule : List I}

def Returned (numWorkers : Int) (calls : I → PacketCall) (schedule : List I) : Prop :=
  ∀ i, (forwardRun calls numWorkers schedule).pos i = .done

def callsFor (calls : I → PacketCall) (iface : String) (groupIdx : Nat) : Finset I :=
  Finset.univ.filter fun i => (calls i).iface = iface ∧ (calls i).groupIdx = groupIdx

def callsOn (calls : I → PacketCall) (iface : String) : Finset I :=
  Finset.univ.filter fun i => (calls i).iface = iface

/-- No interface has more packets or bytes than a `float64` counts exactly. -/
def CountExactly (calls : I → PacketCall) : Prop :=
  ∀ iface, (callsOn calls iface).card < 2 ^ 53 ∧
    ∑ i ∈ callsOn calls iface, (calls i).size < 2 ^ 53

/-- The flow counters add up: those of an interface and a group are the number and the
total size of the calls for them, and so the totals over any groups that have all of the
calls' are those of the transmitted counters over any workers that have all of theirs. -/
structure FlowsAddUp (calls : I → PacketCall) (r : Recorder I) : Prop where
  packets : ∀ iface groupIdx,
    (r.flow iface groupIdx).packets = (callsFor calls iface groupIdx).card
  bytes : ∀ iface groupIdx,
    (r.flow iface groupIdx).bytes = ∑ i ∈ callsFor calls iface groupIdx, (calls i).size
  packetTotals : ∀ (iface : String) (groups : Finset Nat) (workers : Finset Int),
    (∀ i, (calls i).groupIdx ∈ groups) → (∀ i, (calls i).workerID ∈ workers) →
      ∑ groupIdx ∈ groups, (r.flow iface groupIdx).packets =
        ∑ workerID ∈ workers, (r.tx workerID iface).packets
  byteTotals : ∀ (iface : String) (groups : Finset Nat) (workers : Finset Int),
    (∀ i, (calls i).groupIdx ∈ groups) → (∀ i, (calls i).workerID ∈ workers) →
      ∑ groupIdx ∈ groups, (r.flow iface groupIdx).bytes =
        ∑ workerID ∈ workers, (r.tx workerID iface).bytes

/-- Once all calls have returned a flow has counted those whose worker has a cell. -/
theorem Returned.flow (hreturned : Returned numWorkers calls schedule) (iface : String)
    (groupIdx : Nat) :
    (forwardRun calls numWorkers schedule).shared.flowTally iface groupIdx =
      ∑ i, if (calls i).Flows numWorkers iface groupIdx then
        (1, UInt64.ofNat (calls i).size) else (0, 0) := by
  have htally := (forwardStep_discipline numWorkers calls).run_tally_of_zero
    (fun r => r.flowTally iface groupIdx)
    (fun i p => flowShare numWorkers (calls i) iface groupIdx p)
    (fun hsound hstands hstep => (forwards_of_step hstep).flowTally hsound hstands)
    (start_stands numWorkers calls) rfl (fun i => ite_self _) schedule
  refine htally.trans (Finset.sum_congr rfl fun i _ => ?_)
  have hpos := hreturned i
  rw [forwardRun] at hpos
  rw [flowShare, hpos]
  rfl

theorem Returned.tx (hreturned : Returned numWorkers calls schedule) (workerID : Int)
    (iface : String) :
    (forwardRun calls numWorkers schedule).shared.txTally workerID iface =
      ∑ i, if (calls i).iface = iface ∧ (calls i).workerID = workerID then
        (1, UInt64.ofNat (float64 (calls i).size)) else (0, 0) := by
  have htally := (forwardStep_discipline numWorkers calls).run_tally_of_zero
    (fun r => r.txTally workerID iface)
    (fun i p => txShare (calls i) iface workerID p)
    (fun hsound hstands hstep => (forwards_of_step hstep).txTally hsound hstands)
    (start_stands numWorkers calls) rfl (fun i => ite_self _) schedule
  refine htally.trans (Finset.sum_congr rfl fun i _ => ?_)
  have hpos := hreturned i
  rw [forwardRun] at hpos
  rw [txShare, hpos]
  rfl

omit [DecidableEq I] in
/-- What is added for some of an interface's calls is shown as it is. -/
theorem CountExactly.shown (hexact : CountExactly calls) {iface : String} (holds : I → Prop)
    [DecidablePred holds] (hiface : ∀ i, holds i → (calls i).iface = iface) :
    float64 (∑ i, if holds i then (1 : UInt64) else 0).toNat =
        ∑ i, (if holds i then 1 else 0) ∧
      float64 (∑ i, if holds i then UInt64.ofNat (calls i).size else 0).toNat =
        ∑ i, if holds i then (calls i).size else 0 := by
  have hle : ∀ amount : I → Nat, ∑ i, (if holds i then amount i else 0) ≤
      ∑ i ∈ callsOn calls iface, amount i := by
    intro amount
    rw [callsOn, Finset.sum_filter]
    refine Finset.sum_le_sum fun i _ => ?_
    split_ifs with hholds hother hother
    · exact le_refl _
    · exact absurd (hiface i hholds) hother
    · exact Nat.zero_le _
    · exact le_refl 0
  have hcard := (hle fun _ => 1).trans_lt (Finset.card_eq_sum_ones _ ▸ (hexact iface).1)
  have hsize := (hle fun i => (calls i).size).trans_lt (hexact iface).2
  constructor
  · rw [← float64_sum _ hcard]
    simp only [apply_ite UInt64.ofNat]
    rfl
  · rw [← float64_sum _ hsize]
    simp only [apply_ite UInt64.ofNat]
    rfl

omit [DecidableEq I] in
theorem CountExactly.size (hexact : CountExactly calls) (i : I) :
    float64 (calls i).size = (calls i).size := by
  refine float64_of_lt (lt_of_le_of_lt ?_ (hexact (calls i).iface).2)
  exact Finset.single_le_sum (f := fun j => (calls j).size) (fun _ _ => Nat.zero_le _)
    (Finset.mem_filter.mpr ⟨Finset.mem_univ i, rfl⟩)

/-- The collector shows the packets and bytes of the calls whose worker has a cell. -/
theorem Returned.flow_shown (hreturned : Returned numWorkers calls schedule)
    (hexact : CountExactly calls) (iface : String) (groupIdx : Nat) :
    ((forwardRun calls numWorkers schedule).shared.flow iface groupIdx).packets =
        ∑ i, (if (calls i).Flows numWorkers iface groupIdx then 1 else 0) ∧
      ((forwardRun calls numWorkers schedule).shared.flow iface groupIdx).bytes =
        ∑ i, if (calls i).Flows numWorkers iface groupIdx then (calls i).size else 0 := by
  have hshown := hexact.shown (fun i => (calls i).Flows numWorkers iface groupIdx)
    fun i hflows => hflows.1
  have htally := hreturned.flow iface groupIdx
  rw [Recorder.flowTally, Prod.ext_iff] at htally
  simp only [Prod.fst_sum, Prod.snd_sum, apply_ite Prod.fst, apply_ite Prod.snd] at htally
  rw [Recorder.flow_eq, FlowCell.exposed, htally.1, htally.2]
  exact hshown

/-- And the transmitted counters those of every call of the worker. -/
theorem Returned.tx_shown (hreturned : Returned numWorkers calls schedule)
    (hexact : CountExactly calls) (workerID : Int) (iface : String) :
    ((forwardRun calls numWorkers schedule).shared.tx workerID iface).packets =
        ∑ i, (if (calls i).iface = iface ∧ (calls i).workerID = workerID then 1 else 0) ∧
      ((forwardRun calls numWorkers schedule).shared.tx workerID iface).bytes =
        ∑ i, if (calls i).iface = iface ∧ (calls i).workerID = workerID then (calls i).size
          else 0 := by
  have hshown := hexact.shown
    (fun i => (calls i).iface = iface ∧ (calls i).workerID = workerID)
    fun i hboth => hboth.1
  have htally := hreturned.tx workerID iface
  rw [Recorder.txTally, Prod.ext_iff] at htally
  simp only [Prod.fst_sum, Prod.snd_sum, apply_ite Prod.fst, apply_ite Prod.snd,
    hexact.size] at htally
  rw [Recorder.tx, htally.1, htally.2]
  exact hshown

omit [DecidableEq I] in
/-- Summed over keys that have all of them, what is kept by key is all there is. -/
theorem sum_by_key {K : Type} [DecidableEq K] {keys : Finset K} {key : I → K}
    (hkeys : ∀ i, key i ∈ keys) (holds : I → Prop) [DecidablePred holds] (weight : I → Nat) :
    ∑ k ∈ keys, ∑ i, (if holds i ∧ key i = k then weight i else 0) =
      ∑ i, if holds i then weight i else 0 := by
  rw [Finset.sum_comm]
  apply Finset.sum_congr rfl
  intro i _
  by_cases hi : holds i
  · simp only [hi, true_and, ↓reduceIte]
    rw [Finset.sum_ite_eq, if_pos (hkeys i)]
  · simp only [hi, false_and, ↓reduceIte, Finset.sum_const_zero]

theorem Returned.tx_totals (hreturned : Returned numWorkers calls schedule)
    (hexact : CountExactly calls) (iface : String)
    {workers : Finset Int} (hworkers : ∀ i, (calls i).workerID ∈ workers) :
    ∑ workerID ∈ workers, ((forwardRun calls numWorkers schedule).shared.tx workerID
        iface).packets = ∑ i, (if (calls i).iface = iface then 1 else 0) ∧
      ∑ workerID ∈ workers, ((forwardRun calls numWorkers schedule).shared.tx workerID
        iface).bytes = ∑ i, if (calls i).iface = iface then (calls i).size else 0 := by
  constructor
  · rw [Finset.sum_congr rfl fun workerID _ => (hreturned.tx_shown hexact workerID iface).1]
    exact sum_by_key hworkers _ _
  · rw [Finset.sum_congr rfl fun workerID _ => (hreturned.tx_shown hexact workerID iface).2]
    exact sum_by_key hworkers _ _

/-- As long as a `float64` counts them exactly, the flows add up if and only if every
call's worker has a cell. -/
theorem flowsAddUp_iff (hreturned : Returned numWorkers calls schedule)
    (hexact : CountExactly calls) :
    FlowsAddUp calls (forwardRun calls numWorkers schedule).shared ↔
      ∀ i, inRange (calls i).workerID (workerSlots numWorkers) := by
  have hpackets : ∀ iface groupIdx, _ = _ := fun iface groupIdx =>
    (hreturned.flow_shown hexact iface groupIdx).1
  have hbytes : ∀ iface groupIdx, _ = _ := fun iface groupIdx =>
    (hreturned.flow_shown hexact iface groupIdx).2
  constructor
  · intro hadds i
    by_contra hout
    -- The call is one of its flow's calls, but not one that was counted.
    have hcount := hadds.packets (calls i).iface (calls i).groupIdx
    rw [hpackets, callsFor, Finset.card_filter] at hcount
    refine absurd hcount
      (Nat.ne_of_lt (Finset.sum_lt_sum (fun j _ => ?_) ⟨i, Finset.mem_univ i, ?_⟩))
    · split_ifs with hflows hcalled
      · exact le_refl 1
      · exact absurd ⟨hflows.1, hflows.2.1⟩ hcalled
      · exact Nat.zero_le 1
      · exact le_refl 0
    · rw [if_neg fun hflows => hout hflows.2.2, if_pos ⟨rfl, rfl⟩]
      exact Nat.zero_lt_one
  · intro hin
    have hflows : ∀ i iface groupIdx, (calls i).Flows numWorkers iface groupIdx ↔
        (calls i).iface = iface ∧ (calls i).groupIdx = groupIdx :=
      fun i _ _ => ⟨fun hflows => ⟨hflows.1, hflows.2.1⟩, fun hboth => ⟨hboth.1, hboth.2, hin i⟩⟩
    simp only [hflows] at hpackets hbytes
    refine ⟨?_, ?_, ?_, ?_⟩
    · intro iface groupIdx
      rw [hpackets, callsFor, Finset.card_filter]
    · intro iface groupIdx
      rw [hbytes, callsFor, Finset.sum_filter]
    · intro iface groups workers hgroups hworkers
      rw [(hreturned.tx_totals hexact iface hworkers).1,
        Finset.sum_congr rfl fun groupIdx _ => hpackets iface groupIdx]
      exact sum_by_key hgroups _ _
    · intro iface groups workers hgroups hworkers
      rw [(hreturned.tx_totals hexact iface hworkers).2,
        Finset.sum_congr rfl fun groupIdx _ => hbytes iface groupIdx]
      exact sum_by_key hgroups _ _

end Runs

section Sample

def laneCall : Unit → PacketCall :=
  fun _ => ⟨"eth0", -1, 7, 100⟩

def laneTurns : List Unit :=
  List.replicate 19 ()

/-- It is transmitted, and in no flow. -/
theorem laneCall_uncounted :
    Returned 4 laneCall laneTurns ∧
      (forwardRun laneCall 4 laneTurns).shared.tx (-1) "eth0" = ⟨1, 100⟩ ∧
      (forwardRun laneCall 4 laneTurns).shared.flow "eth0" 7 = ⟨0, 0⟩ ∧
      ¬ FlowsAddUp laneCall (forwardRun laneCall 4 laneTurns).shared := by
  have hflow : (forwardRun laneCall 4 laneTurns).shared.flow "eth0" 7 = ⟨0, 0⟩ := by
    decide +kernel
  refine ⟨fun _ => rfl, by decide +kernel, hflow, fun hadds => ?_⟩
  have hcount := hadds.packets "eth0" 7
  rw [hflow] at hcount
  exact absurd hcount (by decide)

/-- Two workers that see an interface and a group first at the same time. -/
def workerCalls : Bool → PacketCall
  | false => ⟨"eth0", 0, 7, 100⟩
  | true => ⟨"eth0", 1, 7, 50⟩

def workerTurns : List Bool :=
  (List.replicate 24 [false, true]).flatten

theorem flowsAddUp_iff_sample :
    FlowsAddUp workerCalls (forwardRun workerCalls 2 workerTurns).shared :=
  (flowsAddUp_iff
    (fun
      | false => rfl
      | true => rfl)
    fun iface => ⟨lt_of_le_of_lt (Finset.card_filter_le _ _) (by decide),
      lt_of_le_of_lt (Finset.sum_le_univ_sum_of_nonneg fun _ => Nat.zero_le _)
        (by decide)⟩).mpr (by decide)

end Sample

end ShardProxy
