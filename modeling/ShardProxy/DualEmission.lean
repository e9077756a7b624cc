/-
Dual emission.  While the engine of a successor layout is published, a
transaction goes to its group under the active layout and, where that is
another one, to its group under the successor's.  A transaction that leaves
whole does; one that is split into fragments goes to the active group only.
-/
import ShardProxy.Routing

namespace ShardProxy

open ByteField Dispenser

section Dual

variable (env : Env) (fw : Forwarder)

/-- Nobody has claimed the transaction, if it is one that is claimed. -/
def Unclaimed (f : Frame) (st : FwState) : Prop :=
  f.version = frameVerV2 → ∀ ref, fw.txDedup = some ref →
    (ref.keySpace, f.txID) ∉ st.stores ref.store

/-- The transactions `process` admits, as a frame or bare, each with the frame it
is sent as. -/
inductive Admitted (st : FwState) : Entry → Bytes → Frame → Prop where
  | framed {raw : Bytes} {f : Frame}
      (hgates : txGates env fw raw fw.verifyPayloadHash = .ok f) (hfree : Unclaimed fw f st) :
      Admitted st (.process raw) raw f
  | bare {tx framing : Bytes} {f : Frame} (hbare : bareTxGates env fw tx = .ok framing)
      (hgates : txGates env fw framing false = .ok f) (hfree : Unclaimed fw f st) :
      Admitted st (.bareTx tx) framing f

/-- What a reassembler makes of the fragments of a transaction. -/
def Frame.whole (f : Frame) : Reassembled :=
  ⟨0, f.txID, f.subtreeID, 0, f.payload.length, f.payload⟩

/-- The complete datagram set of a transaction, addressed to one group: its
frame, stamps apart, or all its fragments. -/
inductive Delivers (frame : Bytes) (f : Frame) (idx : UInt32) : List EnqueueReq → Prop where
  | whole {req : EnqueueReq} (hdst : req.dst = fw.addrFor idx)
      (hsame : SameFrame frame req.raw) : Delivers frame f idx [req]
  | fragments {reqs : List EnqueueReq} {mtu : Int} {flow : ChainKey} {last : UInt64}
      {pieces : List FragmentFrame} (hdst : ∀ req ∈ reqs, req.dst = fw.addrFor idx)
      (hpieces : FragmentsOf env mtu fw.fragDataSize f.whole flow last reqs pieces) :
      Delivers frame f idx reqs

/-- The transaction is queued once for its group of the active layout, once for
its group of the successor's if that is another, for nothing else, and no part
of it waits for a bundle. -/
structure DualEmitted (entry : Entry) (src : Option NetAddr) (now : Time) (st : FwState)
    (secondary : Engine) (frame : Bytes) (f : Frame) : Prop where
  queued : ∃ new active successor,
    (entry.run env fw src now st).2.queue = st.queue ++ new ∧ new.Perm (active ++ successor) ∧
      Delivers env fw frame f (fw.engine.groupIndex f.txID) active ∧
      (secondary.groupIndex f.txID = fw.engine.groupIndex f.txID → successor = []) ∧
      (secondary.groupIndex f.txID ≠ fw.engine.groupIndex f.txID →
        Delivers env fw frame f (secondary.groupIndex f.txID) successor)
  unbuffered : (entry.run env fw src now st).2.coal = st.coal

/-- The transaction is split, and either its two groups differ or it takes more
fragments than can be counted. -/
structure LosesCopy (src : Option NetAddr) (secondary : Engine) (f : Frame) : Prop where
  version : f.version = frameVerV2
  source : src.isSome
  split : fw.fragments f.payload
  lost : secondary.groupIndex f.txID ≠ fw.engine.groupIndex f.txID ∨
    65535 < fw.fragTotal f.payload

variable {env fw} {entry : Entry} {src : Option NetAddr} {now : Time} {st : FwState}
  {secondary : Engine} {frame : Bytes} {f : Frame}

theorem process_of_unclaimed {verify : Bool} (hgates : txGates env fw frame verify = .ok f)
    (hfree : Unclaimed fw f st) :
    ∃ before, Ready st before ∧
      process env fw frame src verify st = emitTx env fw frame f src before := by
  by_cases hversion : f.version = frameVerV2
  · cases hstore : fw.txDedup with
    | none =>
        refine ⟨st, Ready.refl st, ?_⟩
        rw [process, Fw.gate_bind_ok hgates]
        simp only [hversion, ↓reduceIte, claimIngress, hstore]
        rfl
    | some ref =>
        refine ⟨_, (Ready.refl st).claimed (claimedStores ref f.txID st.stores), ?_⟩
        rw [process_of_gates hgates hversion hstore, Fw.bind_apply,
          claimIngressIn_of_not_mem (hfree hversion ref hstore)]
  · refine ⟨st, Ready.refl st, ?_⟩
    rw [process, Fw.gate_bind_ok hgates]
    simp only [hversion, ↓reduceIte]

theorem Admitted.run (hadmitted : Admitted env fw st entry frame f) (src : Option NetAddr)
    (now : Time) :
    env.decode frame = some f ∧ ∃ before, Ready st before ∧
      entry.run env fw src now st = emitTx env fw frame f src before := by
  cases hadmitted with
  | framed hgates hfree => exact ⟨txGates_ok hgates, process_of_unclaimed hgates hfree⟩
  | bare hbare hgates hfree =>
      refine ⟨txGates_ok hgates, ?_⟩
      rw [Entry.run, dispatchBareTx, Fw.gate_bind_ok hbare]
      exact process_of_unclaimed hgates hfree

/-- Nothing waits for a bundle while a successor is published. -/
theorem not_waits_of_bridging (hbridging : st.bridging = some secondary) :
    ¬ Waits env fw st f src := by
  rintro ⟨_, _, _, _, _, hnone, _⟩
  rw [hbridging] at hnone
  cases hnone

theorem dualEmitted_of_whole {sent : Bytes} (hsame : SameFrame frame sent)
    (hqueue : (entry.run env fw src now st).2.queue = st.queue ++
      (enqueueData sent (fw.addrFor (fw.engine.groupIndex f.txID)) (fw.engine.groupIndex f.txID) ::
        bridgeCopy fw (some secondary) f (fw.engine.groupIndex f.txID) sent))
    (hcoal : (entry.run env fw src now st).2.coal = st.coal) :
    DualEmitted env fw entry src now st secondary frame f := by
  refine ⟨⟨_, [_], bridgeCopy fw (some secondary) f (fw.engine.groupIndex f.txID) sent, hqueue,
    List.Perm.refl _, .whole rfl hsame, ?_, ?_⟩, hcoal⟩
  · intro hindex
    simp only [bridgeCopy, hindex, ne_eq, not_true_eq_false, ↓reduceIte]
  · intro hindex
    simp only [bridgeCopy, hindex, ne_eq, not_false_eq_true, ↓reduceIte]
    exact .whole rfl hsame

theorem Delivers.exists_mem {idx : UInt32} {reqs : List EnqueueReq}
    (hdelivers : Delivers env fw frame f idx reqs) : ∃ req ∈ reqs, req.dst = fw.addrFor idx := by
  cases hdelivers with
  | whole hdst _ => exact ⟨_, List.mem_singleton_self _, hdst⟩
  | @fragments _ mtu flow last pieces hdst hpieces =>
      have hsome : reqs ≠ [] := by
        rintro rfl
        obtain rfl := List.map_eq_nil_iff.mp hpieces.decoded.symm
        cases hpieces.reassembles [] (List.Perm.refl _)
      obtain ⟨req, hreq⟩ := List.exists_mem_of_ne_nil _ hsome
      exact ⟨req, hreq, hdst req hreq⟩

/-- What a split transaction adds to the queue goes to the active group. -/
theorem LosesCopy.not_dualEmitted (hfrag : FragmentLaws env)
    (hbridging : st.bridging = some secondary) (hadmitted : Admitted env fw st entry frame f)
    (hloses : LosesCopy fw src secondary f) :
    ¬ DualEmitted env fw entry src now st secondary frame f := by
  intro hdual
  obtain ⟨_, before, hready, hrun⟩ := hadmitted.run src now
  obtain ⟨s, rfl⟩ := Option.isSome_iff_exists.mp hloses.source
  obtain ⟨new, active, successor, hqueue, hperm, hactive, _, hsuccessor⟩ := hdual.queued
  have hwaits : ¬ Waits env fw before f (some s) :=
    not_waits_of_bridging (hready.bridging.trans hbridging)
  have hsplit : (txOut fw before.bridging frame f (some s)).split =
      some (fragmentPlan fw f (addrToIPv6 s) (fw.engine.groupIndex f.txID)) :=
    if_pos hloses.split
  rw [hrun, emitTx_of_not_waits env fw hloses.version frame hwaits] at hqueue
  by_cases hover : (txOut fw before.bridging frame f (some s)).Overflows
  · rw [Outgoing.send_overflow _ hover, hready.queue] at hqueue
    obtain rfl := List.self_eq_append_right.mp hqueue
    obtain ⟨req, hreq, _⟩ := hactive.exists_mem
    cases hperm.mem_iff.mpr (List.mem_append_left successor hreq)
  · rw [Outgoing.send_apply _ hfrag before hover, hready.queue] at hqueue
    have hnew := List.append_cancel_left hqueue
    rcases hloses.lost with hindex | hcount
    · obtain ⟨req, hreq, hdst⟩ := (hsuccessor hindex).exists_mem
      have hmem := hperm.mem_iff.mpr (List.mem_append_right active hreq)
      rw [← hnew, Outgoing.requests, hsplit] at hmem
      have hother : req.dst = fw.addrFor (fw.engine.groupIndex f.txID) :=
        dst_of_mem_planRequests hmem
      exact addrFor_groupIndex_ne fw hindex (hdst.symm.trans hother)
    · exact hover ⟨_, hsplit, hcount⟩

theorem dualEmitted_of_not_losesCopy (hdec : DecodeLaws env) (hfrag : FragmentLaws env)
    (hbridging : st.bridging = some secondary) (hadmitted : Admitted env fw st entry frame f)
    (hloses : ¬ LosesCopy fw src secondary f) :
    DualEmitted env fw entry src now st secondary frame f := by
  obtain ⟨hdecode, before, hready, hrun⟩ := hadmitted.run src now
  have hpublished : before.bridging = some secondary := hready.bridging.trans hbridging
  rcases hdec.decode_version hdecode with hlegacy | hversion
  · rw [emitTx_of_legacy env fw (by rw [hlegacy]; decide), hpublished,
      Outgoing.send_apply _ hfrag before (by rintro ⟨plan, hsplit, _⟩; cases hsplit)] at hrun
    refine dualEmitted_of_whole (SameFrame.refl frame) ?_ ?_
    · rw [hrun, hready.queue]
      rfl
    · rw [hrun]
      exact hready.coal
  · rw [emitTx_of_not_waits env fw hversion frame (not_waits_of_bridging hpublished),
      hpublished] at hrun
    have hfit : ¬ (txOut fw (some secondary) frame f src).Overflows := by
      rintro ⟨plan, hsplit, hcount⟩
      obtain ⟨s, rfl, rfl⟩ := splitOf_some hsplit
      exact hloses ⟨hversion, rfl, Outgoing.split_fragments _ hsplit, Or.inr hcount⟩
    rw [Outgoing.send_apply _ hfrag before hfit] at hrun
    cases hsplit : (txOut fw (some secondary) frame f src).split with
    | none =>
        have hsame : SameFrame frame
            ((txOut fw (some secondary) frame f src).frame env before.chains) :=
          (txOut fw (some secondary) frame f src).sameFrame
            (hdec.decode_size hdecode hversion).1 before.chains
        refine dualEmitted_of_whole hsame ?_ ?_
        · rw [hrun, hready.queue, Outgoing.requests, hsplit]
          rfl
        · rw [hrun]
          exact hready.coal
    | some plan =>
        obtain ⟨s, rfl, rfl⟩ := splitOf_some hsplit
        have hsame : secondary.groupIndex f.txID = fw.engine.groupIndex f.txID := by
          by_contra hindex
          exact hloses ⟨hversion, rfl, Outgoing.split_fragments _ hsplit, Or.inl hindex⟩
        have hcount : fw.fragTotal f.payload ≤ 65535 :=
          Nat.le_of_not_lt fun hmany => hfit ⟨_, hsplit, hmany⟩
        have hpieces := (fragmentPlan fw f (addrToIPv6 s) (fw.engine.groupIndex f.txID)).fragmentsOf
          hfrag (Int.le_refl _) (Outgoing.split_fragments _ hsplit) hcount
          (hdec.decode_size hdecode hversion).2 before.chains
        have hqueue : (entry.run env fw (some s) now st).2.queue = st.queue ++
            planRequests env fw (fragmentPlan fw f (addrToIPv6 s) (fw.engine.groupIndex f.txID))
              before.chains := by
          rw [hrun, hready.queue, Outgoing.requests, hsplit]
        refine ⟨⟨_, _, [], hqueue, ?_, .fragments ?_ hpieces, fun _ => rfl,
          fun hindex => absurd hsame hindex⟩, ?_⟩
        · rw [List.append_nil]
        · exact fun req hreq => dst_of_mem_planRequests hreq
        · rw [hrun]
          exact hready.coal

/-- Dual emission, and the transactions it leaves out: while a successor is
published an admitted transaction goes to both its groups, unless it is split
and the groups differ, or it is split into too many pieces. -/
theorem dualEmitted_iff (hdec : DecodeLaws env) (hfrag : FragmentLaws env)
    (hbridging : st.bridging = some secondary) (hadmitted : Admitted env fw st entry frame f)
    (src : Option NetAddr) (now : Time) :
    DualEmitted env fw entry src now st secondary frame f ↔ ¬ LosesCopy fw src secondary f := by
  constructor
  · intro hdual hloses
    exact hloses.not_dualEmitted hfrag hbridging hadmitted hdual
  · exact dualEmitted_of_not_losesCopy hdec hfrag hbridging hadmitted

end Dual

section Sample

open Reference

/-- A successor layout of nine bits over one of eight. -/
def successor : Engine := engine 9 (by decide)

def bridgingState : FwState := { state with bridging := some successor }

theorem admitted_sampleFrame {fw : Forwarder} (hformat : fw.requireEF = false)
    (hverify : fw.verifyPayloadHash = false) (hstore : fw.txDedup = none) (id : Hash32)
    {tx : Bytes} (hlength : tx.length < 2 ^ 32) :
    Admitted Reference.env fw bridgingState (.process (sampleFrame id tx)) (sampleFrame id tx)
      ⟨frameVerV2, id, 0, zeroHash, tx⟩ := by
  refine .framed ?_ ?_
  · refine txGates_of_unstamped (decode_sampleFrame id hlength) rfl rfl ?_ ?_ ?_
    · intro hrequired
      cases hformat.symm.trans hrequired
    · intro hverified
      cases hverify.symm.trans hverified
    · intro hverified
      cases hverify.symm.trans hverified
  · intro _ ref href
    cases hstore.symm.trans href

/-- A small frame goes to both its groups. -/
theorem dualEmitted_iff_whole :
    DualEmitted Reference.env forwarder (.process (sampleFrame (sampleID 1) (sampleTx 0)))
      (some (source 1)) 0 bridgingState successor (sampleFrame (sampleID 1) (sampleTx 0))
      ⟨frameVerV2, sampleID 1, 0, zeroHash, sampleTx 0⟩ := by
  refine (dualEmitted_iff decodeLaws fragmentLaws rfl
    (admitted_sampleFrame rfl rfl rfl (sampleID 1) (by decide)) _ _).mpr ?_
  intro hloses
  exact absurd hloses.split.1 (by decide)

/-- At an MTU of 1500 a frame of 2000 bytes is split, and its fragments go to the
active group only. -/
theorem splitFrame_not_dualEmitted :
    ¬ DualEmitted Reference.env (forwarder.setFragMTU 1500)
      (.process (sampleFrame (sampleID 1) (List.replicate 2000 0))) (some (source 1)) 0
      bridgingState successor (sampleFrame (sampleID 1) (List.replicate 2000 0))
      ⟨frameVerV2, sampleID 1, 0, zeroHash, List.replicate 2000 0⟩ := by
  have hlength : (List.replicate 2000 (0 : UInt8)).length = 2000 := List.length_replicate
  apply LosesCopy.not_dualEmitted fragmentLaws rfl
  · apply admitted_sampleFrame rfl rfl rfl
    rw [hlength]
    decide
  · refine ⟨rfl, rfl, ?_, Or.inl (by decide +kernel)⟩
    rw [Forwarder.fragments, hlength]
    decide

end Sample

end ShardProxy
