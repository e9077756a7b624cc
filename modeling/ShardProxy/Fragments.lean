/-
Fragmentation seen from the other end.  The four fragmenters split payloads of
different frames under different identifiers; what they queue can be put back
together from the pieces alone, in whatever order these arrive, and a frame
that is small enough leaves as it is.
-/
import ShardProxy.Outgoing
import ShardProxy.Reference

namespace ShardProxy

open ByteField Chunks Dispenser

/-- What a reassembler knows of a frame: its version, its identifier slots,
byte 7, and the payload with the length it was announced under. -/
structure Reassembled where
  version : UInt8
  id : Hash32
  second : Hash32
  byte7 : UInt8
  payloadLen : Nat
  payload : Bytes
deriving DecidableEq

/-- Rebuild a frame from its pieces: the identifiers of whichever arrived first,
and the data by index. -/
def reassemble : List FragmentFrame → Option Reassembled
  | [] => none
  | first :: rest =>
      some {
        version := first.args.origFrameVer
        id := first.args.txID
        second := first.args.subtreeID
        byte7 := first.msgType
        payloadLen := first.args.origPayloadLen.toNat
        payload := gather
          ((first :: rest).map fun piece => (piece.args.fragIndex.toNat, piece.args.fragData))
          first.args.fragTotal.toNat }

def FragPlan.whole (plan : FragPlan) : Reassembled where
  version := plan.origFrameVer
  id := plan.id
  second := plan.second
  byte7 := plan.byte7.getD 0
  payloadLen := plan.payload.length
  payload := plan.payload

/-- The queued requests are the fragments of a frame, on a flow whose last SeqNum
was `last`, under a path MTU. -/
structure FragmentsOf (env : Env) (mtu : Int) (dataSize : Nat) (whole : Reassembled)
    (flow : ChainKey) (last : UInt64) (reqs : List EnqueueReq)
    (pieces : List FragmentFrame) : Prop where
  decoded : reqs.map (fun req => env.decodeFragment req.raw) = pieces.map some
  indices : pieces.map (fun piece => piece.args.fragIndex.toNat) =
    List.range (chunkCount whole.payload.length dataSize)
  totals : ∀ piece ∈ pieces,
    piece.args.fragTotal.toNat = chunkCount whole.payload.length dataSize
  lengths : ∀ piece ∈ pieces, piece.args.origPayloadLen.toNat = whole.payload.length
  full : ∀ piece ∈ pieces,
    piece.args.fragIndex.toNat + 1 < chunkCount whole.payload.length dataSize →
      piece.args.fragData.length = dataSize
  nonempty : ∀ piece ∈ pieces,
    0 < piece.args.fragData.length ∧ piece.args.fragData.length ≤ dataSize
  sized : ∀ req ∈ reqs, (req.raw.length : Int) ≤ mtu - ipv6UDPHeaderSize
  stamped : ∀ i req, reqs[i]? = some req →
    Carries env flow (last + 1 + UInt64.ofNat i) req
  data : pieces.flatMap (fun piece => piece.args.fragData) = whole.payload
  reassembles : ∀ arrived : List FragmentFrame, arrived.Perm pieces →
    reassemble arrived = some whole

section Pieces

variable (env : Env) (fw : Forwarder) (plan : FragPlan)

/-- Fragment `i` as it decodes. -/
def FragPlan.piece (last : UInt64) (i : Nat) : FragmentFrame :=
  ⟨plan.args fw i (fw.fragTotal plan.payload) (env.hashKey plan.flow)
    (last + 1 + UInt64.ofNat i), plan.byte7.getD 0⟩

def FragPlan.pieces (last : UInt64) : List FragmentFrame :=
  (List.range (fw.fragTotal plan.payload)).map (plan.piece env fw last)

variable {env fw plan} {last : UInt64}

theorem FragPlan.mem_pieces {piece : FragmentFrame} :
    piece ∈ plan.pieces env fw last ↔
      ∃ i < fw.fragTotal plan.payload, plan.piece env fw last i = piece := by
  simp [FragPlan.pieces]

/-- Below the largest count, an index and the total fit their fields. -/
theorem FragPlan.piece_index (hmax : fw.fragTotal plan.payload ≤ 65535) {i : Nat}
    (hi : i < fw.fragTotal plan.payload) :
    (plan.piece env fw last i).args.fragIndex.toNat = i :=
  UInt16.toNat_ofNat_of_lt' (show i < 2 ^ 16 by omega)

theorem FragPlan.piece_total (hmax : fw.fragTotal plan.payload ≤ 65535) (i : Nat) :
    (plan.piece env fw last i).args.fragTotal.toNat = fw.fragTotal plan.payload :=
  UInt16.toNat_ofNat_of_lt' (show fw.fragTotal plan.payload < 2 ^ 16 by omega)

theorem FragPlan.piece_length (hlength : plan.payload.length < 2 ^ 32) (i : Nat) :
    (plan.piece env fw last i).args.origPayloadLen.toNat = plan.payload.length :=
  UInt32.toNat_ofNat_of_lt' hlength

/-- The pieces, as a reassembler orders them, are the chunks of the payload. -/
theorem FragPlan.indexed_pieces (hmax : fw.fragTotal plan.payload ≤ 65535) :
    (plan.pieces env fw last).map
        (fun piece => (piece.args.fragIndex.toNat, piece.args.fragData)) =
      indexed plan.payload fw.fragDataSize := by
  rw [FragPlan.pieces, List.map_map, indexed]
  apply List.map_congr_left
  intro i hi
  have hindex : (plan.piece env fw last i).args.fragIndex.toNat = i :=
    plan.piece_index hmax (List.mem_range.mp hi)
  exact Prod.ext hindex rfl

/-- Any order of arrival rebuilds the frame. -/
theorem FragPlan.reassemble_pieces (hfragments : fw.fragments plan.payload)
    (hmax : fw.fragTotal plan.payload ≤ 65535) (hlength : plan.payload.length < 2 ^ 32)
    {arrived : List FragmentFrame} (hperm : arrived.Perm (plan.pieces env fw last)) :
    reassemble arrived = some plan.whole := by
  cases arrived with
  | nil =>
      have hempty := hperm.length_eq
      have hpos : 0 < fw.fragTotal plan.payload := by
        apply (lt_chunkCount_iff hfragments.1).mpr
        rw [Nat.zero_mul]
        exact Nat.lt_trans hfragments.1 hfragments.2
      simp [FragPlan.pieces] at hempty
      omega
  | cons first rest =>
      obtain ⟨i, hi, rfl⟩ := FragPlan.mem_pieces.mp
        (hperm.mem_iff.mp (List.mem_cons_self : first ∈ first :: rest))
      have hindexed := hperm.map fun piece => (piece.args.fragIndex.toNat, piece.args.fragData)
      rw [plan.indexed_pieces hmax] at hindexed
      have hpayload := gather_of_perm hfragments.1 hindexed
      rw [reassemble, FragPlan.whole, plan.piece_total hmax, plan.piece_length hlength,
        Forwarder.fragTotal, hpayload]
      rfl

theorem getElem?_planRequests {chains : Chains} {i : Nat} {req : EnqueueReq}
    (hreq : (planRequests env fw plan chains)[i]? = some req) :
    i < fw.fragTotal plan.payload ∧
      req = plan.enqueue (planDatagram env fw plan (fw.fragTotal plan.payload) i
        (env.hashKey plan.flow) (lastSeq chains plan.flow + 1 + UInt64.ofNat i)) := by
  obtain ⟨hi, rfl⟩ := List.getElem?_eq_some_iff.mp hreq
  simp only [planRequests, List.length_map, List.length_range] at hi
  refine ⟨hi, ?_⟩
  simp [planRequests]

theorem length_withByte7 (byte7 : Option UInt8) (datagram : Bytes) :
    (withByte7 byte7 datagram).length = datagram.length := by
  cases byte7 with
  | none => rfl
  | some byte => exact List.length_set

theorem length_planDatagram (hlaws : FragmentLaws env) (k i : Nat) (hashKey seqNum : UInt64) :
    (planDatagram env fw plan k i hashKey seqNum).length =
      headerSizeV3 + (chunk plan.payload fw.fragDataSize i).length := by
  rw [planDatagram, length_withByte7]
  exact hlaws.length _

/-- What a plan queues are the fragments of its frame. -/
theorem FragPlan.fragmentsOf (hlaws : FragmentLaws env) {mtu : Int}
    (hmtu : (fw.fragDataSize + ipv6UDPOverhead : Int) ≤ mtu)
    (hfragments : fw.fragments plan.payload) (hmax : fw.fragTotal plan.payload ≤ 65535)
    (hlength : plan.payload.length < 2 ^ 32) (chains : Chains) :
    FragmentsOf env mtu fw.fragDataSize plan.whole plan.flow (lastSeq chains plan.flow)
      (planRequests env fw plan chains)
      (plan.pieces env fw (lastSeq chains plan.flow)) where
  decoded := by
    rw [planRequests, FragPlan.pieces, List.map_map, List.map_map]
    apply List.map_congr_left
    intro i hi
    have hplaced := plan.placed hfragments.1 rfl hmax (List.mem_range.mp hi)
      (env.hashKey plan.flow) (lastSeq chains plan.flow + 1 + UInt64.ofNat i)
    exact hlaws.decode hplaced plan.byte7
  indices := by
    have hpieces : (plan.pieces env fw (lastSeq chains plan.flow)).map
        (fun piece => (piece.args.fragIndex.toNat, piece.args.fragData)) =
          indexed plan.payload fw.fragDataSize := plan.indexed_pieces hmax
    have hindices := congrArg (List.map Prod.fst) hpieces
    rw [List.map_map, indexed, List.map_map] at hindices
    exact hindices.trans (List.map_id _)
  totals := by
    intro piece hpiece
    obtain ⟨i, _, rfl⟩ := FragPlan.mem_pieces.mp hpiece
    exact plan.piece_total hmax i
  lengths := by
    intro piece hpiece
    obtain ⟨i, _, rfl⟩ := FragPlan.mem_pieces.mp hpiece
    exact plan.piece_length hlength i
  full := by
    intro piece hpiece hnotLast
    obtain ⟨i, hi, rfl⟩ := FragPlan.mem_pieces.mp hpiece
    rw [plan.piece_index hmax hi] at hnotLast
    exact length_chunk_of_not_last hfragments.1 hnotLast
  nonempty := by
    intro piece hpiece
    obtain ⟨i, hi, rfl⟩ := FragPlan.mem_pieces.mp hpiece
    constructor
    · exact List.length_pos_of_ne_nil (chunk_ne_nil hfragments.1 hi)
    · exact length_chunk_le plan i
  sized := by
    intro req hreq
    obtain ⟨i, _, rfl⟩ := List.mem_map.mp hreq
    have hdata : (chunk plan.payload fw.fragDataSize i).length ≤ fw.fragDataSize :=
      length_chunk_le plan i
    rw [FragPlan.enqueue, length_planDatagram hlaws]
    rw [ipv6UDPOverhead] at hmtu
    omega
  stamped := by
    intro i req hreq
    obtain ⟨_, rfl⟩ := getElem?_planRequests hreq
    exact carries_planDatagram hlaws plan _ i _
  data := by
    rw [List.flatMap_def, FragPlan.pieces, List.map_map]
    exact flatten_chunks plan.payload hfragments.1
  reassembles _ hperm := plan.reassemble_pieces hfragments hmax hlength hperm

end Pieces

/-- A whole frame as it leaves: stamping may have changed HashKey and SeqNum,
bytes 40 to 55, and nothing else. -/
structure SameFrame (raw sent : Bytes) : Prop where
  length : sent.length = raw.length
  field : ∀ off width, off + width ≤ 40 ∨ 56 ≤ off →
    ByteField.field sent off width = ByteField.field raw off width

theorem SameFrame.refl (raw : Bytes) : SameFrame raw raw := ⟨rfl, fun _ _ _ => rfl⟩

theorem Outgoing.sameFrame {env : Env} {fw : Forwarder} (o : Outgoing fw)
    (hsize : headerSize ≤ o.raw.length) (chains : Chains) :
    SameFrame o.raw (o.frame env chains) := by
  rw [Outgoing.frame]
  cases o.flow with
  | none => exact SameFrame.refl o.raw
  | some flow =>
      constructor
      · exact stamped_length env fw o.raw flow _ hsize
      · intro off width hout
        exact stamped_field env fw o.raw flow _ hsize hout

/-- A frame of one of the four classes that may be split. -/
inductive Splittable where
  | tx (raw : Bytes) (f : Frame)
  | block (raw : Bytes) (bf : BlockFrame)
  | subtreeData (raw : Bytes) (sf : SubtreeDataFrame)
  | beef (raw : Bytes) (bf : BEEFFrame) (deliver : UInt8) (groupIdx : UInt32)

namespace Splittable

variable (env : Env) (fw : Forwarder)

/-- The frame is what its bytes decode to. -/
def Decoded : Splittable → Prop
  | .tx raw f => env.decode raw = some f ∧ f.version = frameVerV2
  | .block raw bf => env.decodeBlock raw = some bf
  | .subtreeData raw sf => env.decodeSubtreeData raw = some sf
  | .beef raw bf _ _ => env.decodeBEEF raw = some bf

/-- The bytes that leave: the door has put its DeliverCount into a BEEF frame. -/
def raw : Splittable → Bytes
  | .tx raw _ => raw
  | .block raw _ => raw
  | .subtreeData raw _ => raw
  | .beef raw _ deliver _ => raw.set 7 deliver

def payload : Splittable → Bytes
  | .tx _ f => f.payload
  | .block _ bf => bf.payload
  | .subtreeData _ sf => sf.payload
  | .beef _ bf _ _ => bf.payload

/-- What the whole frame tells a consumer.  Version 0 stands for V2, whose byte 7
says nothing. -/
def whole : Splittable → Reassembled
  | .tx _ f => ⟨0, f.txID, f.subtreeID, 0, f.payload.length, f.payload⟩
  | .block _ bf =>
      ⟨frameVerV4, bf.contentID, zeroHash, bf.msgType, bf.payload.length, bf.payload⟩
  | .subtreeData _ sf =>
      ⟨frameVerV5, sf.subtreeID, zeroHash, sf.msgType, sf.payload.length, sf.payload⟩
  | .beef _ bf deliver _ =>
      ⟨frameVerV9, bf.contentID, bf.topicID, deliver, bf.payload.length, bf.payload⟩

/-- The BEEF frame past its checks. -/
def checked (raw : Bytes) (bf : BEEFFrame) (deliver : UInt8) (groupIdx : UInt32) :
    CheckedBEEF :=
  ⟨{ bf with deliverCount := deliver }, groupIdx, raw.set 7 deliver⟩

/-- The fragmenter of the frame's class. -/
def fragment (ip : IPv6) (idx : UInt32) : Splittable → Fw Unit
  | .tx _ f => ShardProxy.fragment env fw f ip idx
  | .block raw bf => fragmentBlock env fw raw bf ip idx
  | .subtreeData raw sf => fragmentSubtreeData env fw raw sf ip idx
  | .beef _ bf deliver _ => fragmentBEEF env fw { bf with deliverCount := deliver } ip idx

def flow (ip : IPv6) (idx : UInt32) : Splittable → ChainKey
  | .tx _ f => ⟨ip, idx, f.subtreeID⟩
  | .block _ _ => ⟨ip, idx, zeroHash⟩
  | .subtreeData _ sf => ⟨ip, idx, sf.subtreeID⟩
  | .beef _ _ _ _ => ⟨ip, idx, zeroHash⟩

/-- What the forwarder does with the frame after its claim. -/
def emit (src : Option NetAddr) : Splittable → Fw Unit
  | .tx raw f => emitTx env fw raw f src
  | .block raw bf => emitBlock env fw raw bf src
  | .subtreeData raw sf => emitSubtreeData env fw raw sf src
  | .beef raw bf deliver groupIdx => emitBEEF env fw (checked raw bf deliver groupIdx) src

def plan (ip : IPv6) (idx : UInt32) : Splittable → FragPlan
  | .tx _ f => fragmentPlan fw f ip idx
  | .block raw bf => fragmentBlockPlan fw raw bf ip idx
  | .subtreeData raw sf => fragmentSubtreeDataPlan fw raw sf ip idx
  | .beef _ bf deliver _ => fragmentBEEFPlan fw { bf with deliverCount := deliver } ip idx

variable {env fw}

theorem fragment_eq (w : Splittable) (ip : IPv6) (idx : UInt32) :
    w.fragment env fw ip idx = fragmentWith env fw (w.plan fw ip idx) := by
  cases w <;> rfl

theorem plan_payload (w : Splittable) (ip : IPv6) (idx : UInt32) :
    (w.plan fw ip idx).payload = w.payload := by
  cases w <;> rfl

theorem plan_flow (w : Splittable) (ip : IPv6) (idx : UInt32) :
    (w.plan fw ip idx).flow = w.flow ip idx := by
  cases w <;> rfl

/-- The plan of a decoded frame carries what the whole frame tells. -/
theorem plan_whole (hlaws : DecodeLaws env) {w : Splittable} (hdecoded : w.Decoded env)
    (ip : IPv6) (idx : UInt32) : (w.plan fw ip idx).whole = w.whole := by
  cases w with
  | tx raw f => rfl
  | block raw bf =>
      have hbyte7 := hlaws.decodeBlock_msgType hdecoded
      simp only [plan, FragPlan.whole, fragmentBlockPlan, whole, hbyte7, Option.getD_some]
  | subtreeData raw sf =>
      have hbyte7 := hlaws.decodeSubtreeData_msgType hdecoded
      simp only [plan, FragPlan.whole, fragmentSubtreeDataPlan, whole, hbyte7,
        Option.getD_some]
  | beef raw bf deliver groupIdx => rfl

theorem decoded_size (hlaws : DecodeLaws env) {w : Splittable} (hdecoded : w.Decoded env) :
    headerSize ≤ w.raw.length ∧ w.payload.length < 2 ^ 32 := by
  cases w with
  | tx raw f => exact hlaws.decode_size hdecoded.1 hdecoded.2
  | block raw bf => exact hlaws.decodeBlock_size hdecoded
  | subtreeData raw sf => exact hlaws.decodeSubtreeData_size hdecoded
  | beef raw bf deliver groupIdx =>
      have hsize := hlaws.decodeBEEF_size hdecoded
      rw [Splittable.raw, List.length_set]
      exact hsize

/-- The frame as one object past its claim. -/
def out (fw : Forwarder) (bridging : Option Engine) (src : Option NetAddr) :
    Splittable → Outgoing fw
  | .tx raw f => txOut fw bridging raw f src
  | .block raw bf => blockOut fw raw bf src
  | .subtreeData raw sf => subtreeOut fw raw sf src
  | .beef raw bf deliver groupIdx => beefOut fw (checked raw bf deliver groupIdx) src

/-- The frame waits in the worker's buffer for a bundle. -/
def Waiting (env : Env) (fw : Forwarder) (st : FwState) (src : Option NetAddr) :
    Splittable → Prop
  | .tx _ f => Waits env fw st f src
  | .block _ _ => False
  | .subtreeData _ _ => False
  | .beef _ _ _ _ => False

/-- Only a transaction from a source waits, and it needs no splitting. -/
theorem waiting_cases {w : Splittable} {src : Option NetAddr} {st : FwState}
    (hwaiting : w.Waiting env fw st src) :
    ∃ raw f sender coal, w = .tx raw f ∧ src = some sender ∧ st.coal = some coal ∧
      ¬ fw.fragments f.payload ∧
      w.emit env fw src st = (.ok (), { st with
        coal := some (coal.add (txFlow fw f sender) ⟨f.txID, f.payload⟩) }) := by
  cases w with
  | tx raw f =>
      have hwaits : Waits env fw st f src := hwaiting
      obtain ⟨hsrc, _, hsmall, _, hcoal, _⟩ := hwaits
      obtain ⟨sender, rfl⟩ := Option.isSome_iff_exists.mp hsrc
      obtain ⟨coal, hbuffer⟩ := Option.isSome_iff_exists.mp hcoal
      have hemit := emitTx_of_waits env fw raw hwaiting
      rw [hbuffer] at hemit
      exact ⟨raw, f, sender, coal, rfl, rfl, hbuffer, hsmall, hemit⟩
  | block raw bf => exact absurd hwaiting id
  | subtreeData raw sf => exact absurd hwaiting id
  | beef raw bf deliver groupIdx => exact absurd hwaiting id

theorem emit_eq_send {w : Splittable} (hdecoded : w.Decoded env) {src : Option NetAddr}
    {st : FwState} (hwaiting : ¬ w.Waiting env fw st src) :
    w.emit env fw src st = (w.out fw st.bridging src).send env st := by
  cases w with
  | tx raw f => exact emitTx_of_not_waits env fw hdecoded.2 raw hwaiting
  | block raw bf => exact congrFun (emitBlock_eq env fw raw bf src) st
  | subtreeData raw sf => exact congrFun (emitSubtreeData_eq env fw raw sf src) st
  | beef raw bf deliver groupIdx => exact congrFun (emitBEEF_eq env fw _ src) st

theorem out_raw (w : Splittable) (bridging : Option Engine) (src : Option NetAddr) :
    (w.out fw bridging src).raw = w.raw := by
  cases w <;> rfl

theorem out_split_of_small {w : Splittable} (hsmall : ¬ fw.fragments w.payload)
    (bridging : Option Engine) (src : Option NetAddr) :
    (w.out fw bridging src).split = none := by
  cases w <;> exact if_neg hsmall

/-- Every request of a whole frame carries the frame, and there is one. -/
theorem out_reqs (w : Splittable) (bridging : Option Engine) (src : Option NetAddr)
    (raw : Bytes) :
    (w.out fw bridging src).reqs raw ≠ [] ∧
      ∀ req ∈ (w.out fw bridging src).reqs raw, req.raw = raw := by
  cases w with
  | tx own f =>
      refine ⟨List.cons_ne_nil _ _, ?_⟩
      intro req hreq
      rcases List.mem_cons.mp hreq with rfl | hcopy
      · rfl
      · exact raw_of_mem_bridgeCopy hcopy
  | block own bf => simp [out, blockOut, enqueueCacheable]
  | subtreeData own sf => simp [out, subtreeOut, enqueueCacheable]
  | beef own bf deliver groupIdx => simp [out, beefOut, enqueueData]

/-- A frame leaves in one piece: it waits with its whole payload for a bundle,
or is queued as it is within the path MTU. -/
inductive LeavesWhole (env : Env) (fw : Forwarder) (mtu : Int) (src : Option NetAddr)
    (st : FwState) (w : Splittable) : Prop where
  | member {raw : Bytes} {f : Frame} {coal : CoalBuffer} {sender : NetAddr}
      (hframe : w = .tx raw f) (hsrc : src = some sender) (hcoal : st.coal = some coal)
      (hemit : w.emit env fw src st = (.ok (), { st with
        coal := some (coal.add (txFlow fw f sender) ⟨f.txID, f.payload⟩) }))
  | whole {chains : Chains} {reqs : List EnqueueReq}
      (hemit : w.emit env fw src st =
        (.ok (), { st with chains := chains, queue := st.queue ++ reqs }))
      (hsome : reqs ≠ [])
      (hreqs : ∀ req ∈ reqs, SameFrame w.raw req.raw ∧
        (req.raw.length : Int) ≤ mtu - ipv6UDPHeaderSize)

theorem leavesWhole (hdec : DecodeLaws env) (hfrag : FragmentLaws env) {mtu : Int}
    (hmtu : (fw.fragDataSize + ipv6UDPOverhead : Int) ≤ mtu) {w : Splittable}
    (hdecoded : w.Decoded env) (hsmall : w.payload.length ≤ fw.fragDataSize)
    (hexact : w.raw.length = headerSize + w.payload.length) (src : Option NetAddr)
    (st : FwState) : LeavesWhole env fw mtu src st w := by
  have hwhole : ¬ fw.fragments w.payload := fun hlarge => by
    have hover := hlarge.2
    omega
  by_cases hwaiting : w.Waiting env fw st src
  · obtain ⟨raw, f, sender, coal, hframe, hsrc, hcoal, _, hemit⟩ := waiting_cases hwaiting
    exact .member hframe hsrc hcoal hemit
  · have hsplit := out_split_of_small hwhole st.bridging src
    have hfit : ¬ (w.out fw st.bridging src).Overflows := by
      rintro ⟨plan, hplan, _⟩
      cases hsplit.symm.trans hplan
    have hemit := emit_eq_send hdecoded hwaiting
    rw [Outgoing.send_apply _ hfrag st hfit] at hemit
    refine .whole hemit ?_ ?_
    · rw [Outgoing.requests, hsplit]
      exact (out_reqs w st.bridging src _).1
    · intro req hreq
      rw [Outgoing.requests, hsplit] at hreq
      have hraw := (out_reqs w st.bridging src _).2 req hreq
      have hsize : headerSize ≤ (w.out fw st.bridging src).raw.length := by
        rw [out_raw]
        exact (decoded_size hdec hdecoded).1
      have hsame : SameFrame (w.out fw st.bridging src).raw
          ((w.out fw st.bridging src).frame env st.chains) :=
        (w.out fw st.bridging src).sameFrame hsize st.chains
      rw [out_raw, ← hraw] at hsame
      refine ⟨hsame, ?_⟩
      rw [hsame.length, hexact]
      simp only [ipv6UDPOverhead, headerSizeV3, headerSize] at hmtu ⊢
      omega

end Splittable

/-- The data size an MTU leaves, when it leaves any. -/
theorem Forwarder.setFragMTU_dataSize (base : Forwarder) (mtu : Int)
    (hsize : 0 < (base.setFragMTU mtu).fragDataSize) :
    ((base.setFragMTU mtu).fragDataSize + ipv6UDPOverhead : Int) ≤ mtu := by
  simp only [Forwarder.setFragMTU] at hsize ⊢
  split at hsize
  · rename_i hroom
    rw [if_pos hroom]
    omega
  · exact absurd hsize (Nat.lt_irrefl 0)

/-- Fragmentation is transparent for every class that may be split: what the
fragmenter queues rebuilds the frame in any order of arrival, and a frame that
needs no splitting leaves whole; both keep to the path MTU. -/
theorem fragmentation_transparent {env : Env} (hdec : DecodeLaws env)
    (hfrag : FragmentLaws env) (base : Forwarder) (mtu : Int) {w : Splittable}
    (hdecoded : w.Decoded env) (hsize : 0 < (base.setFragMTU mtu).fragDataSize)
    (st : FwState) :
    ((base.setFragMTU mtu).fragDataSize < w.payload.length →
      (base.setFragMTU mtu).fragTotal w.payload ≤ 65535 →
        ∀ ip idx, ∃ reqs pieces,
          w.fragment env (base.setFragMTU mtu) ip idx st = (.ok (), { st with
            chains := advance st.chains (w.flow ip idx) reqs.length
            queue := st.queue ++ reqs }) ∧
          FragmentsOf env mtu (base.setFragMTU mtu).fragDataSize w.whole (w.flow ip idx)
            (lastSeq st.chains (w.flow ip idx)) reqs pieces) ∧
    (w.payload.length ≤ (base.setFragMTU mtu).fragDataSize →
      w.raw.length = headerSize + w.payload.length →
        ∀ src, Splittable.LeavesWhole env (base.setFragMTU mtu) mtu src st w) := by
  have hmtu := base.setFragMTU_dataSize mtu hsize
  constructor
  · intro hlarge hmax ip idx
    obtain ⟨plan, hplan⟩ : ∃ plan, plan = w.plan (base.setFragMTU mtu) ip idx := ⟨_, rfl⟩
    have hpayload : plan.payload = w.payload := hplan ▸ w.plan_payload ip idx
    have hflow : plan.flow = w.flow ip idx := hplan ▸ w.plan_flow ip idx
    have hwhole : plan.whole = w.whole := hplan ▸ Splittable.plan_whole hdec hdecoded ip idx
    have hfragments : (base.setFragMTU mtu).fragments plan.payload :=
      ⟨hsize, by rw [hpayload]; exact hlarge⟩
    have hcount : (base.setFragMTU mtu).fragTotal plan.payload ≤ 65535 := by
      rw [hpayload]
      exact hmax
    have hlength : plan.payload.length < 2 ^ 32 := by
      rw [hpayload]
      exact (Splittable.decoded_size hdec hdecoded).2
    refine ⟨planRequests env (base.setFragMTU mtu) plan st.chains,
      plan.pieces env (base.setFragMTU mtu) (lastSeq st.chains plan.flow), ?_, ?_⟩
    · have hreqs : (planRequests env (base.setFragMTU mtu) plan st.chains).length =
          (base.setFragMTU mtu).fragTotal plan.payload := by
        simp [planRequests]
      rw [Splittable.fragment_eq, ← hplan, fragmentWith_apply hfrag hfragments,
        if_neg (Nat.not_lt.mpr hcount), hreqs, ← hflow]
    · rw [← hflow, ← hwhole]
      exact plan.fragmentsOf hfrag hmtu hfragments hcount hlength st.chains
  · intro hsmall hexact src
    exact Splittable.leavesWhole hdec hfrag hmtu hdecoded hsmall hexact src st

section Sample

open Reference

def sampleBlock : Splittable :=
  .block (encodeFields frameVerV4 ⟨blockMsgAnnounce, sampleID 7, 0, 0, zeroHash, [1, 2, 3]⟩)
    ⟨blockMsgAnnounce, sampleID 7, [1, 2, 3]⟩

theorem sampleBlock_decoded : sampleBlock.Decoded Reference.env := by
  have hdecode : decodeBlock sampleBlock.raw =
      some ⟨blockMsgAnnounce, sampleID 7, [1, 2, 3]⟩ := by
    decide +kernel
  exact hdecode

/-- With room for two bytes of data the announce is split; with room for three
it leaves whole. -/
theorem fragmentation_transparent_sample :
    (∃ reqs pieces,
      sampleBlock.fragment Reference.env (forwarder.setFragMTU 154) (addrToIPv6 (source 1))
        groupBlockBroadcast.toUInt32 state = (.ok (), { state with
          chains := advance state.chains
            (sampleBlock.flow (addrToIPv6 (source 1)) groupBlockBroadcast.toUInt32) reqs.length
          queue := state.queue ++ reqs }) ∧
      FragmentsOf Reference.env 154 2 sampleBlock.whole
        (sampleBlock.flow (addrToIPv6 (source 1)) groupBlockBroadcast.toUInt32)
        (lastSeq state.chains
          (sampleBlock.flow (addrToIPv6 (source 1)) groupBlockBroadcast.toUInt32))
        reqs pieces) ∧
    Splittable.LeavesWhole Reference.env (forwarder.setFragMTU 155) 155 (some (source 1)) state
      sampleBlock :=
  ⟨(fragmentation_transparent decodeLaws fragmentLaws forwarder 154 sampleBlock_decoded
      (by decide) state).1 (by decide) (by decide) _ _,
    (fragmentation_transparent decodeLaws fragmentLaws forwarder 155 sampleBlock_decoded
      (by decide) state).2 (by decide) (by decide +kernel) _⟩

end Sample

end ShardProxy
