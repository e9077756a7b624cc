/-
Control-plane isolation.  What an open socket puts on the fabric is addressed
to a shard group, to a group of the BEEF plane, or, for an anchor, to the block
group.  The one exception is a relayed bundle: its header names the group, and
nobody checks that the group is a shard's.
-/
import ShardProxy.Routing

namespace ShardProxy

open ByteField

section Isolation

variable (env : Env) (fw : Forwarder)

/-- The engines whose shard groups are in use: the active one, and the successor
while it is published. -/
def InUse (st : FwState) (engine : Engine) : Prop :=
  engine = fw.engine ∨ st.bridging = some engine

/-- Where a datagram of an open socket may be addressed: a shard group of an
engine in use, the group of a topic on the configured BEEF plane for a frame that
passed `checkBEEF`, or the block group for an anchor, changed by its stamps
only. -/
inductive Addressed (raw : Bytes) (src : Option NetAddr) (now : Time) (st : FwState)
    (req : EnqueueReq) : Prop where
  | shard {engine : Engine} {idx : UInt32} (hengine : InUse fw st engine)
      (hidx : idx.toNat < 2 ^ engine.shardBits) (hdst : req.dst = fw.addrFor idx)
  | beef {frame : Bytes} {checkContentID : Bool} {checked : CheckedBEEF} {after : FwState}
      {plane : PlaneEngine} (hsubmits : SubmitsBEEF env fw raw src frame checkContentID)
      (hcheck : checkBEEF env fw frame src now checkContentID st = (.ok checked, after))
      (hplane : fw.beefEngine = some plane)
      (hdst : req.dst = fw.addrFor (plane.groupIndex checked.bf.topicID))
  | anchor (hanchor : IsAnchor env raw) (hsame : SameFrame raw req.raw)
      (hdst : req.dst = fw.controlAddr groupBlockBroadcast)

def ToControl (req : EnqueueReq) : Prop :=
  0xFFFA ≤ req.dst.ip.idx.toNat ∧ req.dst.ip.idx.toNat ≤ 0xFFFE

/-- Everything a dispatch queues is addressed where it may be, nothing but an
anchor reaches a control group, and what waits for a bundle waits under a shard
group. -/
structure Isolated (raw : Bytes) (src : Option NetAddr) (now : Time) (cls : IngressClass)
    (st : FwState) : Prop where
  queued : ∃ new, (dispatchClass env fw raw src now cls st).2.queue = st.queue ++ new ∧
    ∀ req ∈ new, Addressed env fw raw src now st req ∧
      (ToControl req → IsAnchor env raw ∧ req.dst.ip.idx = groupBlockBroadcast)
  waiting : ∀ coal, (dispatchClass env fw raw src now cls st).2.coal = some coal →
    ∀ bk ∈ coal.buckets, bk.group.toNat < 2 ^ fw.engine.shardBits ∨
      ∃ earlier, st.coal = some earlier ∧ ∃ old ∈ earlier.buckets, bk.flow = old.flow

/-- A bundle for a group that is no shard's: the datagram is relayed to it as
soon as its length field does not run past its end. -/
structure Misroutes (raw : Bytes) (cls : IngressClass) (st : FwState) : Prop where
  framed : framed raw
  version : versionByte raw = some frameVerV8
  lane : cls ≠ .beef
  header : bundleHeaderSize ≤ raw.length
  payload : bundleHeaderSize + (uint32At raw 62).toNat ≤ raw.length
  outside : ∀ engine, InUse fw st engine → 2 ^ engine.shardBits ≤ (bundleGroup raw).toNat

variable {env fw} {raw : Bytes} {src : Option NetAddr} {now : Time} {cls : IngressClass}
  {st : FwState}

theorem bundleGates_iff :
    bundleGates raw = .ok () ↔ bundleHeaderSize ≤ raw.length ∧ uint32At raw 0 = magicBSV ∧
      bundleHeaderSize + (uint32At raw 62).toNat ≤ raw.length := by
  rw [bundleGates]
  constructor
  · intro hok
    split at hok
    · cases hok
    · rename_i hheader
      split at hok
      · cases hok
      · rename_i hgood
        rw [not_or, not_not] at hgood
        exact ⟨Nat.le_of_not_lt hheader, hgood.1, Nat.le_of_not_lt hgood.2⟩
  · rintro ⟨hheader, hmagic, hpayload⟩
    rw [if_neg (Nat.not_lt_of_le hheader), if_neg]
    rintro (hbad | hbad)
    · exact hbad hmagic
    · exact absurd hpayload (Nat.not_le_of_lt hbad)

theorem bundleGroup_lt (raw : Bytes) : (bundleGroup raw).toNat < 2 ^ 16 := by
  rw [bundleGroup, UInt16.toNat_toUInt32]
  exact UInt16.toNat_lt _

/-- Shard groups and the BEEF band lie below the control groups. -/
theorem Addressed.toControl {req : EnqueueReq} (haddressed : Addressed env fw raw src now st req)
    (hcontrol : ToControl req) : IsAnchor env raw ∧ req.dst.ip.idx = groupBlockBroadcast := by
  cases haddressed with
  | @shard engine idx _ hidx hdst =>
      have hlow := shardIndex_lt engine hidx
      have hhigh := hcontrol.1
      rw [hdst, addrFor_idx fw (Nat.lt_trans hlow (by decide))] at hhigh
      exact absurd hhigh (Nat.not_le_of_lt (Nat.lt_trans hlow (by decide)))
  | @beef _ _ checked _ plane _ _ _ hdst =>
      have hband := (plane.groupIndex_band checked.bf.topicID).2
      have hhigh := hcontrol.1
      rw [hdst, addrFor_idx fw (Nat.lt_of_le_of_lt hband (by decide))] at hhigh
      exact absurd (Nat.le_trans hhigh hband) (by decide)
  | anchor hanchor _ hdst => exact ⟨hanchor, by rw [hdst]; rfl⟩

theorem addressed_bridgeCopy {f : Frame} {groupIdx : UInt32} {sent : Bytes} {req : EnqueueReq}
    (hreq : req ∈ bridgeCopy fw st.bridging f groupIdx sent) :
    Addressed env fw raw src now st req := by
  cases hbridging : st.bridging with
  | none =>
      rw [hbridging] at hreq
      cases hreq
  | some secondary =>
      rw [hbridging, bridgeCopy] at hreq
      split at hreq
      · obtain rfl := List.mem_singleton.mp hreq
        exact .shard (Or.inr hbridging) (secondary.groupIndex_lt f.txID) rfl
      · cases hreq

theorem Object.addressed (hdec : DecodeLaws env) {o : Outgoing fw}
    (hobject : Object env fw raw src now st o) {req : EnqueueReq}
    (hreq : req ∈ o.requests env st.chains) : Addressed env fw raw src now st req := by
  have hactive : ∀ id, req.dst = fw.addrFor (fw.engine.groupIndex id) →
      Addressed env fw raw src now st req :=
    fun id hdst => .shard (Or.inl rfl) (fw.engine.groupIndex_lt id) hdst
  cases hobject with
  | @tx frame f _ _ _ =>
      rcases Outgoing.mem_requests hreq with ⟨plan, hsplit, hpiece⟩ | ⟨_, hwhole⟩
      · obtain ⟨s, _, rfl⟩ := splitOf_some hsplit
        exact hactive f.txID (dst_of_mem_planRequests hpiece)
      · rcases List.mem_cons.mp hwhole with rfl | hcopy
        · exact hactive f.txID rfl
        · exact addressed_bridgeCopy hcopy
  | @legacy frame f _ _ _ =>
      rcases List.mem_cons.mp hreq with rfl | hcopy
      · exact hactive f.txID rfl
      · exact addressed_bridgeCopy hcopy
  | anchor hanchor =>
      obtain ⟨f, hdecode⟩ := hanchor.decodes
      have hsame : SameFrame raw ((anchorOut fw raw src).frame env st.chains) :=
        (anchorOut fw raw src).sameFrame (hdec.decodeAnchor_size hdecode) st.chains
      obtain rfl := List.mem_singleton.mp hreq
      exact .anchor hanchor hsame rfl
  | @beef frame checkContentID checked after hsubmits hcheck =>
      obtain ⟨plane, bf, topics, hplane, _, rfl⟩ := checkBEEF_ok hcheck
      have hplaned : req.dst = fw.addrFor (plane.groupIndex bf.topicID) →
          Addressed env fw raw src now st req := by
        intro hdst
        refine .beef hsubmits hcheck hplane ?_
        rw [setDeliverCount_topicID]
        exact hdst
      rcases Outgoing.mem_requests hreq with ⟨plan, hsplit, hpiece⟩ | ⟨_, hwhole⟩
      · obtain ⟨s, _, rfl⟩ := splitOf_some hsplit
        exact hplaned (dst_of_mem_planRequests hpiece)
      · obtain rfl := List.mem_singleton.mp hwhole
        exact hplaned rfl

/-- A misrouted bundle leaves for a group it may not be addressed to. -/
theorem Misroutes.not_isolated (hmisroutes : Misroutes fw raw cls st) :
    ¬ Isolated env fw raw src now cls st := by
  intro hisolated
  have hgates : bundleGates raw = .ok () :=
    bundleGates_iff.mpr ⟨hmisroutes.header, hmisroutes.framed.2, hmisroutes.payload⟩
  obtain ⟨new, hqueue, hnew⟩ := hisolated.queued
  rw [dispatchClass_bundle hmisroutes.framed hmisroutes.version hmisroutes.lane hgates] at hqueue
  obtain rfl := List.append_cancel_left hqueue
  cases (hnew _ (List.mem_singleton_self _)).1 with
  | @shard engine idx hengine hidx hdst =>
      have hlow := shardIndex_lt engine hidx
      have hsame : (bundleGroup raw).toNat = idx.toNat := by
        rw [← addrFor_idx fw (bundleGroup_lt raw),
          ← addrFor_idx fw (Nat.lt_trans hlow (by decide))]
        exact congrArg (fun dst : UDPAddr => dst.ip.idx.toNat) hdst
      exact absurd (hmisroutes.outside engine hengine) (Nat.not_le_of_lt (hsame ▸ hidx))
  | beef hsubmits _ _ _ =>
      cases hsubmits with
      | record hframed _ => exact hframed hmisroutes.framed
      | framed _ hversion => exact absurd (hversion.symm.trans hmisroutes.version) (by decide)
  | anchor hanchor _ _ => exact absurd (hanchor.version.symm.trans hmisroutes.version) (by decide)

theorem isolated_of_not_misroutes (hdec : DecodeLaws env) (hfrag : FragmentLaws env)
    (hcls : cls ≠ .privileged) (hroutes : ¬ Misroutes fw raw cls st) :
    Isolated env fw raw src now cls st := by
  constructor
  · obtain ⟨new, hqueue, hnew⟩ := dispatchClass_queue hdec hfrag hcls raw
    refine ⟨new, hqueue, ?_⟩
    intro req hreq
    have haddressed : Addressed env fw raw src now st req := by
      cases hnew req hreq with
      | object hobject hsent => exact hobject.addressed hdec hsent
      | bundle hframed hversion hlane hgates =>
          obtain ⟨hheader, _, hpayload⟩ := bundleGates_iff.mp hgates
          by_contra hnot
          refine hroutes ⟨hframed, hversion, hlane, hheader, hpayload, ?_⟩
          intro engine hengine
          exact Nat.le_of_not_lt fun hlow => hnot (.shard hengine hlow rfl)
    exact ⟨haddressed, haddressed.toControl⟩
  · intro coal hcoal bk hbk
    rcases dispatchClass_coal hdec hfrag hcls raw with
      hsame | ⟨s, frame, f, _, _, _, _, hadded⟩
    · exact Or.inr ⟨coal, hsame.symm.trans hcoal, bk, hbk, rfl⟩
    · rw [hcoal] at hadded
      obtain ⟨earlier, hearlier, rfl⟩ := Option.map_eq_some_iff.mp hadded.symm
      rcases flow_mem_addMember hbk with hflow | ⟨old, hold, hflow⟩
      · refine Or.inl ?_
        rw [show bk.group = fw.engine.groupIndex f.txID from congrArg ChainKey.grp hflow]
        exact fw.engine.groupIndex_lt f.txID
      · exact Or.inr ⟨earlier, hearlier, old, hold, hflow⟩

/-- Isolation, and the one way out: a dispatch on an open socket keeps to the
groups it may use, except for a bundle whose header names another. -/
theorem isolated_iff (hdec : DecodeLaws env) (hfrag : FragmentLaws env)
    (hcls : cls ≠ .privileged) (raw : Bytes) (src : Option NetAddr) (now : Time)
    (st : FwState) :
    Isolated env fw raw src now cls st ↔ ¬ Misroutes fw raw cls st := by
  constructor
  · intro hisolated hmisroutes
    exact hmisroutes.not_isolated hisolated
  · exact isolated_of_not_misroutes hdec hfrag hcls

end Isolation

section Sample

open Reference

/-- A frame keeps to its shard. -/
theorem isolated_iff_frame :
    Isolated Reference.env forwarder (sampleFrame (sampleID 1) (sampleTx 0)) (some (source 1)) 0
      .transaction state := by
  refine (isolated_iff decodeLaws fragmentLaws (by decide) _ _ _ _).mpr ?_
  intro hmisroutes
  have hversion := hmisroutes.version
  rw [sampleFrame, versionByte_encodeFields] at hversion
  cases hversion

def emptyBundle (group : UInt16) : Bytes :=
  [leading frameVerV8 0, List.replicate 48 0, spellNat 2 group.toNat, List.replicate 8 0].flatten

/-- A bundle of nothing whose header names the block group is relayed to it. -/
theorem emptyBundle_not_isolated :
    ¬ Isolated Reference.env forwarder (emptyBundle groupBlockBroadcast) (some (source 1)) 0
      .transaction state := by
  apply Misroutes.not_isolated
  refine ⟨by decide +kernel, by decide +kernel, by decide, by decide +kernel, by decide +kernel, ?_⟩
  rintro engine (rfl | hbridging)
  · decide +kernel
  · cases hbridging

end Sample

end ShardProxy
