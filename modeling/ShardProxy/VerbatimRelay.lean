/-
Frames another proxy has numbered.  On a relay lane a V2 frame that arrives
with a SeqNum is to leave as it came, HashKey apart, and to touch no counter.
The rule stands where a whole frame is stamped, and two branches come before
it: a payload that is split gets fresh numbers for its fragments, and one that
is coalesced becomes a member of a bundle with a number of its own.
-/
import ShardProxy.DualEmission

namespace ShardProxy

open ByteField Dispenser

section Relay

variable (env : Env) (fw : Forwarder)

/-- A relayed frame: the input in every byte but those of HashKey, and those are
written only where the rule allows it. -/
structure Relayed (raw sent : Bytes) : Prop where
  length : sent.length = raw.length
  bytes : ∀ pos, pos < 40 ∨ 48 ≤ pos → sent[pos]? = raw[pos]?
  hashKey : sent ≠ raw → uint64At raw 40 = 0 ∨ fw.stampSource = true

/-- The copies of a relayed frame for the successor layout. -/
def successorCopies (bridging : Option Engine) (id : Hash32) (sent : Bytes) : List EnqueueReq :=
  match bridging with
  | none => []
  | some secondary =>
      if secondary.groupIndex id = fw.engine.groupIndex id then []
      else [enqueueData sent (fw.addrFor (secondary.groupIndex id)) (secondary.groupIndex id)]

/-- A pre-stamped frame is relayed as it came: no counter moves, and the queue
grows by the frame for its group and its copy for the successor's. -/
structure Verbatim (entry : Entry) (src : Option NetAddr) (now : Time) (st : FwState)
    (frame : Bytes) (f : Frame) : Prop where
  counters : ∀ flow, lastSeq (entry.run env fw src now st).2.chains flow = lastSeq st.chains flow
  leaves : ∃ sent, Relayed fw frame sent ∧ uint64At sent 48 = f.seqNum ∧
    (entry.run env fw src now st).2.queue = st.queue ++
      (enqueueData sent (fw.addrFor (fw.engine.groupIndex f.txID)) (fw.engine.groupIndex f.txID) ::
        successorCopies fw st.bridging f.txID sent)

variable {env fw} {entry : Entry} {src : NetAddr} {now : Time} {st : FwState} {frame : Bytes}
  {f : Frame}

theorem bridgeCopy_eq (bridging : Option Engine) (sent : Bytes) :
    bridgeCopy fw bridging f (fw.engine.groupIndex f.txID) sent =
      successorCopies fw bridging f.txID sent := by
  cases bridging with
  | none => rfl
  | some secondary =>
      by_cases hsame : secondary.groupIndex f.txID = fw.engine.groupIndex f.txID <;>
        simp [bridgeCopy, successorCopies, hsame]

/-- Stamping a frame that has a SeqNum relays it. -/
theorem relayed_stamped (hsize : headerSize ≤ frame.length) (hseq : uint64At frame 48 ≠ 0)
    (flow : ChainKey) (last : UInt64) :
    Relayed fw frame (stamped env fw frame flow last) ∧
      uint64At (stamped env fw frame flow last) 48 = uint64At frame 48 := by
  have hfit : 40 + 8 ≤ frame.length := Nat.le_trans (by decide) hsize
  by_cases hkey : uint64At frame 40 = 0 ∨ fw.stampSource = true
  · simp only [stamped, hseq, hkey, ↓reduceIte]
    refine ⟨⟨length_putUint64 frame _ hfit, ?_, fun _ => hkey⟩,
      uint64At_putUint64_of_disjoint frame _ hfit (Or.inr (by decide))⟩
    intro pos hpos
    have hfield := getElem?_overwrite frame 40 (spellNat 8 (env.hashKey flow).toNat)
      (by simpa using hfit) pos
    rw [length_spellNat, if_neg (by omega)] at hfield
    exact hfield
  · simp only [stamped, hseq, hkey, ↓reduceIte]
    exact ⟨⟨rfl, fun _ _ => rfl, fun hne => absurd rfl hne⟩, trivial⟩

/-- A split moves its flow's counter, or sends nothing at all. -/
theorem not_verbatim_of_fragments (hfrag : FragmentLaws env)
    (hadmitted : Admitted env fw st entry frame f) (hversion : f.version = frameVerV2)
    (hsplit : fw.fragments f.payload) :
    ¬ Verbatim env fw entry (some src) now st frame f := by
  obtain ⟨_, before, hready, hrun⟩ := hadmitted.run (some src) now
  have hwaits : ¬ Waits env fw before f (some src) := fun hwaits => hwaits.2.2.1 hsplit
  rw [emitTx_of_not_waits env fw hversion frame hwaits] at hrun
  have hplan : (txOut fw before.bridging frame f (some src)).split =
      some (fragmentPlan fw f (addrToIPv6 src) (fw.engine.groupIndex f.txID)) := by
    simp only [txOut, splitOf, hsplit, ↓reduceIte, Option.map_some]
  rintro ⟨hcounters, sent, _, _, hqueue⟩
  by_cases hover : (txOut fw before.bridging frame f (some src)).Overflows
  · rw [hrun, Outgoing.send_overflow _ hover, hready.queue] at hqueue
    have hlength := congrArg List.length hqueue
    simp at hlength
  · have hmoved := hcounters (txFlow fw f src)
    rw [hrun, Outgoing.send_apply _ hfrag _ hover] at hmoved
    have hchains : (txOut fw before.bridging frame f (some src)).chainsAfter before.chains =
        advance st.chains (txFlow fw f src) (fw.fragTotal f.payload) := by
      rw [Outgoing.chainsAfter, hplan, hready.chains]
      rfl
    simp only [hchains] at hmoved
    rw [lastSeq_advance, if_pos rfl] at hmoved
    have hcount : fw.fragTotal f.payload ≤ 65535 :=
      Nat.le_of_not_lt fun hmany => hover ⟨_, hplan, hmany⟩
    have hsome : 0 < fw.fragTotal f.payload :=
      (Chunks.lt_chunkCount_iff hsplit.1).mpr (by
        rw [Nat.zero_mul]
        exact Nat.lt_trans hsplit.1 hsplit.2)
    have hnat := congrArg UInt64.toNat hmoved
    rw [UInt64.toNat_add,
      UInt64.toNat_ofNat_of_lt' (show fw.fragTotal f.payload < 2 ^ 64 by omega)] at hnat
    have hlast := (lastSeq st.chains (txFlow fw f src)).toNat_lt
    omega

/-- A member leaves with its bundle, not by itself. -/
theorem not_verbatim_of_coalesces (hadmitted : Admitted env fw st entry frame f)
    (hversion : f.version = frameVerV2) (hsplit : ¬ fw.fragments f.payload)
    (hcoal : coalesces env fw st f.payload) :
    ¬ Verbatim env fw entry (some src) now st frame f := by
  obtain ⟨_, before, hready, hrun⟩ := hadmitted.run (some src) now
  have hcoal' : coalesces env fw before f.payload := by
    rw [coalesces, hready.coal, hready.bridging]
    exact hcoal
  rw [emitTx_of_waits env fw frame ⟨rfl, hversion, hsplit, hcoal'⟩] at hrun
  rintro ⟨_, sent, _, _, hqueue⟩
  rw [hrun] at hqueue
  simp only [hready.queue] at hqueue
  have hlength := congrArg List.length hqueue
  simp at hlength

theorem verbatim_of_whole (hdec : DecodeLaws env) (hfrag : FragmentLaws env)
    (hseq : SeqNumLaws env) (hadmitted : Admitted env fw st entry frame f)
    (hversion : f.version = frameVerV2) (hstamped : f.seqNum ≠ 0)
    (hsplit : ¬ fw.fragments f.payload) (hcoal : ¬ coalesces env fw st f.payload) :
    Verbatim env fw entry (some src) now st frame f := by
  obtain ⟨hdecode, before, hready, hrun⟩ := hadmitted.run (some src) now
  have hwaits : ¬ Waits env fw before f (some src) := by
    rintro ⟨_, _, _, hwaiting⟩
    rw [coalesces, hready.coal, hready.bridging] at hwaiting
    exact hcoal hwaiting
  have hnumber : uint64At frame 48 = f.seqNum := (hseq.decode_seqNum hdecode hversion).symm
  have hkept : uint64At frame 48 ≠ 0 := hnumber ▸ hstamped
  have hplan : (txOut fw before.bridging frame f (some src)).split = none := by
    simp only [txOut, splitOf, hsplit, ↓reduceIte]
  have hfit : ¬ (txOut fw before.bridging frame f (some src)).Overflows := by
    rintro ⟨plan, hfound, _⟩
    cases hplan.symm.trans hfound
  rw [emitTx_of_not_waits env fw hversion frame hwaits, Outgoing.send_apply _ hfrag _ hfit] at hrun
  have hrelayed : Relayed fw frame (stamped env fw frame (txFlow fw f src)
      (lastSeq st.chains (txFlow fw f src))) ∧ _ :=
    relayed_stamped (hdec.decode_size hdecode hversion).1 hkept _ _
  constructor
  · intro flow
    have hchains : (txOut fw before.bridging frame f (some src)).chainsAfter before.chains =
        st.chains := by
      rw [Outgoing.chainsAfter, hplan, hready.chains]
      exact if_neg hkept
    rw [hrun]
    simp only [hchains]
  · refine ⟨_, hrelayed.1, hrelayed.2.trans hnumber, ?_⟩
    rw [hrun, Outgoing.requests, hplan]
    simp only [Outgoing.frame, txOut, Option.map_some, hready.chains, hready.queue,
      hready.bridging, bridgeCopy_eq]

/-- Pre-stamped frames that are neither split nor coalesced are relayed as they
came, and no others. -/
theorem prestamped_verbatim_iff (hdec : DecodeLaws env) (hfrag : FragmentLaws env)
    (hseq : SeqNumLaws env) (hadmitted : Admitted env fw st entry frame f)
    (hversion : f.version = frameVerV2) (hstamped : f.seqNum ≠ 0) (src : NetAddr) (now : Time) :
    Verbatim env fw entry (some src) now st frame f ↔
      ¬ fw.fragments f.payload ∧ ¬ coalesces env fw st f.payload := by
  constructor
  · intro hverbatim
    have hsplit : ¬ fw.fragments f.payload := fun hsplit =>
      not_verbatim_of_fragments hfrag hadmitted hversion hsplit hverbatim
    exact ⟨hsplit, fun hcoal =>
      not_verbatim_of_coalesces hadmitted hversion hsplit hcoal hverbatim⟩
  · rintro ⟨hsplit, hcoal⟩
    exact verbatim_of_whole hdec hfrag hseq hadmitted hversion hstamped hsplit hcoal

end Relay

section Sample

open Reference

/-- A relay lane: stamped frames are let in. -/
def relayForwarder : Forwarder :=
  { forwarder with allowStampedIngress := true }

/-- A frame another proxy gave HashKey 5 and SeqNum 77. -/
def prestampedFrame (id : Hash32) (tx : Bytes) : Bytes :=
  encodeFields frameVerV2 ⟨0, id, 5, 77, zeroHash, tx⟩

theorem admitted_prestamped {fw : Forwarder} (hallow : fw.allowStampedIngress = true)
    (hformat : fw.requireEF = false) (hverify : fw.verifyPayloadHash = false)
    (hstore : fw.txDedup = none) (id : Hash32) {tx : Bytes} (hlength : tx.length < 2 ^ 32)
    (st : FwState) :
    Admitted Reference.env fw st (.process (prestampedFrame id tx)) (prestampedFrame id tx)
      ⟨frameVerV2, id, 77, zeroHash, tx⟩ := by
  have hdecode : Reference.env.decode (prestampedFrame id tx) =
      some ⟨frameVerV2, id, 77, zeroHash, tx⟩ := decode_encodeFields _ hlength
  refine .framed ?_ ?_
  · rw [txGates, hdecode]
    simp [hallow, hformat, hverify]
  · intro _ ref href
    cases hstore.symm.trans href

/-- A small pre-stamped frame is relayed. -/
theorem prestamped_verbatim_iff_sample :
    Verbatim Reference.env relayForwarder (.process (prestampedFrame (sampleID 1) (sampleTx 0)))
      (some (source 1)) 0 state (prestampedFrame (sampleID 1) (sampleTx 0))
      ⟨frameVerV2, sampleID 1, 77, zeroHash, sampleTx 0⟩ := by
  refine (prestamped_verbatim_iff decodeLaws fragmentLaws seqNumLaws
    (admitted_prestamped rfl rfl rfl rfl _ (by decide) _) rfl (by decide) _ _).mpr ⟨?_, ?_⟩
  · rintro ⟨hsize, _⟩
    exact absurd hsize (by decide)
  · rintro ⟨hoff, _⟩
    exact absurd hoff (by decide)

/-- At an MTU of 1500 a pre-stamped frame of 2000 bytes is numbered again. -/
theorem splitFrame_not_verbatim :
    ¬ Verbatim Reference.env (relayForwarder.setFragMTU 1500)
      (.process (prestampedFrame (sampleID 1) (List.replicate 2000 0))) (some (source 1)) 0 state
      (prestampedFrame (sampleID 1) (List.replicate 2000 0))
      ⟨frameVerV2, sampleID 1, 77, zeroHash, List.replicate 2000 0⟩ := by
  have hlength : (List.replicate 2000 (0 : UInt8)).length = 2000 := List.length_replicate
  apply not_verbatim_of_fragments fragmentLaws
  · apply admitted_prestamped rfl rfl rfl rfl
    rw [hlength]
    decide
  · rfl
  · rw [Forwarder.fragments, hlength]
    decide

end Sample

end ShardProxy
