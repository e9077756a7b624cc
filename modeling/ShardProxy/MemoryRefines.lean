/-
The lane in memory does what the forwarder does.  From memory that represents a state of
the forwarder, with the input in a buffer that is idle, every path queues slices that show
the datagrams the forwarder queues, and stops where the forwarder stops.  An input that is
not framed leaves its buffer idle: what goes out lies in a buffer of its own.
-/
import ShardProxy.Fragments
import ShardProxy.MemoryOwners

namespace ShardProxy

open ByteField Chunks Dispenser SliceHeap Stateful

/-- Where decoders find the payload of a frame with the long header: right behind it. -/
structure PayloadLaws (env : Env) : Prop where
  decode : ∀ {raw f}, env.decode raw = some f → f.version = frameVerV2 →
    ∃ rest, raw.drop headerSize = f.payload ++ rest
  decodeBlock : ∀ {raw bf}, env.decodeBlock raw = some bf →
    ∃ rest, raw.drop headerSize = bf.payload ++ rest
  decodeSubtreeData : ∀ {raw sf}, env.decodeSubtreeData raw = some sf →
    ∃ rest, raw.drop headerSize = sf.payload ++ rest
  decodeBEEF : ∀ {raw bf}, env.decodeBEEF raw = some bf →
    ∃ rest, raw.drop headerSize = bf.payload ++ rest

section Emitting

variable {A B : Type}

theorem Fw.emit_bind (prog : Emit A) (next : A → Emit B) :
    Fw.emit (prog >>= next) = Fw.emit prog >>= fun result => Fw.emit (next result) := by
  funext st
  rw [Fw.bind_apply]
  simp only [Fw.emit, run_bind, List.append_assoc]

theorem Fw.emit_pure (result : A) : Fw.emit (pure result) = pure result := by
  funext st
  simp only [Fw.emit, run_pure, List.append_nil]
  rfl

theorem Fw.bind_eq_comp (y : Fw A) (g : A → Fw B) :
    (y >>= g) = (Comp.bind y g : Comp FwState Drop B) := by
  funext st
  rw [Fw.bind_apply]
  unfold Comp.bind
  rcases y st with ⟨result | drop, after⟩ <;> rfl

/-- The copy of a transaction for the successor layout, by itself. -/
def enqueueBridge (fw : Forwarder) (f : Frame) (groupIdx : UInt32) (raw : Bytes) : Fw Unit :=
  fun st => enqueue (bridgeCopy fw st.bridging f groupIdx raw) st

theorem enqueueTx_eq (fw : Forwarder) (f : Frame) (groupIdx : UInt32) (raw : Bytes) :
    enqueueTx fw f groupIdx raw =
      enqueue [enqueueData raw (fw.addrFor groupIdx) groupIdx] >>= fun _ =>
        enqueueBridge fw f groupIdx raw := by
  funext st
  rw [Fw.bind_of_ok (enqueue_apply _ _)]
  simp only [enqueueTx, enqueueBridge, enqueue_apply, List.append_assoc, List.singleton_append]

/-- One round of the split loop. -/
def fragmentPiece (env : Env) (fw : Forwarder) (plan : FragPlan) (k i : Nat) : Emit PUnit := do
  let (hashKey, seqNum) ← nextSeq env plan.flow
  sendEncoded plan.enqueue (encodePlanned env fw plan
    (env.poolBuffer (headerSizeV3 + fw.fragDataSize) i) i k hashKey seqNum)

end Emitting

namespace Mem

section Rules

variable {A B : Type} {fw : Forwarder} {opts : EgressOpts} {slots : List Nat}
  {rest : List (Nat × Bytes)} {buf : Nat} {ahead bytes tail : Bytes} {s : MemState} {st : FwState}
  {pre mid post : MemState → FwState → Prop}

/-- The slice of an input that lies behind `ahead` in its buffer. -/
def lying (buf : Nat) (ahead bytes : Bytes) : Slice :=
  ⟨buf, ahead.length, bytes.length⟩

theorem agrees_bind {x : Mem A} {y : Fw A} {f : A → Mem B} {g : A → Fw B}
    (hx : Agrees pre mid x y) (hstop : ∀ s st, mid s st → post s st)
    (hnext : ∀ result, Agrees mid post (f result) (g result)) :
    Agrees pre post (x >>= f) (y >>= g) := by
  rw [Agrees, Fw.bind_eq_comp]
  exact Refines.bind hx hstop hnext

theorem agrees_check {check : Except Drop A} {f : A → Mem B} {g : A → Fw B}
    (hstop : ∀ s st, pre s st → post s st)
    (hnext : ∀ result, check = .ok result → Agrees pre post (f result) (g result)) :
    Agrees pre post (Comp.check check >>= f) (Fw.gate check >>= g) := by
  cases check with
  | error drop => exact fun s st hst => ⟨rfl, hstop s st hst⟩
  | ok result => exact hnext result rfl

theorem agrees_fail (hstop : ∀ s st, pre s st → post s st) (drop : Drop) :
    Agrees pre post (Mem.fail drop : Mem A) (Fw.fail drop) :=
  fun s st hst => ⟨rfl, hstop s st hst⟩

/-- A new buffer holds its input and nothing around it. -/
theorem Represents.alloc_lying (hrep : Represents fw opts slots rest s st) (bytes : Bytes) :
    Represents fw opts slots ((s.heap.next, [] ++ bytes ++ []) :: rest)
      { s with heap := s.heap.alloc bytes } st := by
  rw [List.append_nil]
  exact hrep.alloc bytes

theorem Represents.read
    (hrep : Represents fw opts slots ((buf, ahead ++ bytes ++ tail) :: rest) s st) :
    s.heap.read (lying buf ahead bytes) = bytes :=
  Heap.read_between (hrep.sound.holds _ List.mem_cons_self)

theorem agrees_read {f : Bytes → Mem A} {y : Fw A}
    (hnext : Agrees (Represents fw opts slots ((buf, ahead ++ bytes ++ tail) :: rest)) post
      (f bytes) y) :
    Agrees (Represents fw opts slots ((buf, ahead ++ bytes ++ tail) :: rest)) post
      (Mem.read (lying buf ahead bytes) >>= f) y := by
  intro s st hrep
  have hread : Mem.read (lying buf ahead bytes) s = (.ok bytes, s) := by
    rw [Mem.read, hrep.read]
  rw [Comp.bind_of_ok hread]
  exact hnext s st hrep

theorem Represents.edit {n : Nat}
    (hrep : Represents fw opts slots ((buf, ahead ++ bytes ++ tail) :: rest) s st)
    (hn : bytes.length = n) (change : Bytes → Bytes) :
    ∃ s', Mem.edit ⟨buf, ahead.length, n⟩ change s = (.ok (), s') ∧
      Represents fw opts slots ((buf, ahead ++ change bytes ++ tail) :: rest) s' st := by
  subst hn
  refine ⟨_, rfl, ?_⟩
  rw [Heap.edit_between (hrep.sound.holds _ List.mem_cons_self)]
  exact hrep.store _

theorem agrees_enqueue {n : Nat} (hn : bytes.length = n) (dst : UDPAddr) (groupIdx : UInt32)
    (label : String) (teeable : Bool) :
    Agrees (Represents fw opts slots ((buf, ahead ++ bytes ++ tail) :: rest))
      (Represents fw opts slots rest)
      (Mem.enqueue opts ⟨⟨buf, ahead.length, n⟩, dst, groupIdx, label, teeable, none⟩)
      (ShardProxy.enqueue [⟨bytes, dst, groupIdx, label, teeable, false⟩]) := by
  subst hn
  intro s st hrep
  have hqueued := hrep.enqueue_idle ⟨⟨buf, ahead.length, bytes.length⟩, dst, groupIdx, label,
    teeable, none⟩ rfl rfl
  have hshows : SliceReq.shows s.heap ⟨⟨buf, ahead.length, bytes.length⟩, dst, groupIdx, label,
      teeable, none⟩ = ⟨bytes, dst, groupIdx, label, teeable, false⟩ := by
    rw [SliceReq.shows, show s.heap.read ⟨buf, ahead.length, bytes.length⟩ = bytes from hrep.read]
    rfl
  rw [hshows] at hqueued
  rw [enqueue_apply]
  exact ⟨rfl, hqueued⟩

end Rules

section Paths

variable {env : Env} {fw : Forwarder} {opts : EgressOpts} {slots : List Nat}
  {idle rest : List (Nat × Bytes)} {buf : Nat} {ahead bytes tail : Bytes} {s : MemState}
  {st : FwState}

theorem Represents.nextSeq (hrep : Represents fw opts slots idle s st) (env : Env)
    (flow : ChainKey) :
    ∃ hashKey seqNum s' st', Mem.nextSeq env flow s = (.ok (hashKey, seqNum), s') ∧
      Fw.emit (ShardProxy.nextSeq env flow) st = (.ok (hashKey, seqNum), st') ∧
      Represents fw opts slots idle s' st' := by
  obtain ⟨hresult, hstates⟩ := agrees_shares (sharesOnly_nextSeq env flow) s st hrep
  have hran : (Fw.emit (ShardProxy.nextSeq env flow) st).1 =
      .ok (env.hashKey flow, lastSeq st.chains flow + 1) := by
    simp only [Fw.emit, run_nextSeq]
  exact ⟨_, _, _, _, Prod.ext (hresult.trans hran) rfl, Prod.ext hran rfl, hstates⟩

/-- Stamping in place leaves the stamped frame where the frame was. -/
theorem Represents.stampInPlace
    (hrep : Represents fw opts slots ((buf, ahead ++ bytes ++ tail) :: rest) s st)
    (hsize : headerSize ≤ bytes.length) (flow : ChainKey) :
    ∃ stamped s' st', Mem.stampInPlace env fw (lying buf ahead bytes) flow s = (.ok (), s') ∧
      Fw.emit (ShardProxy.stampInPlace env fw bytes flow) st = (.ok stamped, st') ∧
      stamped.length = bytes.length ∧
      Represents fw opts slots ((buf, ahead ++ stamped ++ tail) :: rest) s' st' := by
  have hread : Mem.read (lying buf ahead bytes) s = (.ok bytes, s) := by
    rw [Mem.read, hrep.read]
  have hfit : 56 ≤ bytes.length := Nat.le_trans (by decide) hsize
  rw [Mem.stampInPlace, Comp.bind_of_ok hread, ShardProxy.stampInPlace]
  by_cases hseq : uint64At bytes 48 = 0
  · rw [if_pos hseq, if_pos hseq, Fw.emit_bind]
    obtain ⟨hashKey, seqNum, s₁, st₁, hnext, hnext', hrep₁⟩ := hrep.nextSeq env flow
    have hfirst : (putUint64 bytes 40 hashKey).length = bytes.length :=
      length_putUint64 bytes hashKey (by omega)
    obtain ⟨s₂, hedit, hrep₂⟩ := hrep₁.edit rfl fun bytes => putUint64 bytes 40 hashKey
    obtain ⟨s₃, hedit', hrep₃⟩ := hrep₂.edit hfirst fun bytes => putUint64 bytes 48 seqNum
    refine ⟨putUint64 (putUint64 bytes 40 hashKey) 48 seqNum, s₃, st₁, ?_, ?_, ?_, hrep₃⟩
    · rw [Comp.bind_of_ok hnext]
      exact (Comp.bind_of_ok hedit _).trans hedit'
    · rw [Fw.bind_of_ok hnext', Fw.emit_pure]
      rfl
    · rw [length_putUint64 _ _ (by omega), hfirst]
  · rw [if_neg hseq, if_neg hseq]
    by_cases hkey : uint64At bytes 40 = 0 ∨ fw.stampSource = true
    · rw [if_pos hkey, if_pos hkey, Fw.emit_pure]
      obtain ⟨s', hedit, hrep'⟩ := hrep.edit rfl fun bytes => putUint64 bytes 40 (env.hashKey flow)
      exact ⟨_, s', st, hedit, rfl, length_putUint64 bytes _ (by omega), hrep'⟩
    · rw [if_neg hkey, if_neg hkey, Fw.emit_pure]
      exact ⟨bytes, s, st, rfl, rfl, rfl, hrep⟩

theorem agrees_stamp {sends : Mem Unit} {sends' : Bytes → Fw Unit} {flow : ChainKey}
    (hsize : headerSize ≤ bytes.length)
    (hsends : ∀ stamped : Bytes, stamped.length = bytes.length →
      Agrees (Represents fw opts slots ((buf, ahead ++ stamped ++ tail) :: rest))
        (Represents fw opts slots rest) sends (sends' stamped)) :
    Agrees (Represents fw opts slots ((buf, ahead ++ bytes ++ tail) :: rest))
      (Represents fw opts slots rest)
      (Mem.stampInPlace env fw (lying buf ahead bytes) flow >>= fun _ => sends)
      (Fw.emit (ShardProxy.stampInPlace env fw bytes flow) >>= sends') := by
  intro s st hrep
  obtain ⟨stamped, s', st', hstamp, hstamp', hlength, hrep'⟩ := hrep.stampInPlace hsize flow
  rw [Comp.bind_of_ok hstamp, Fw.bind_of_ok hstamp']
  exact hsends stamped hlength s' st' hrep'

/-- The second copy shows the bytes of the first. -/
theorem agrees_bridgeCopy (f : Frame) (groupIdx : UInt32) (raw : Slice) :
    Agrees (fun s st => Represents fw opts slots rest s st ∧ s.heap.read raw = bytes ∧
        raw.buf < s.heap.next ∧ raw.buf ∉ s.free ∧ raw.buf ∉ rest.map Prod.fst)
      (Represents fw opts slots rest) (Mem.bridgeCopy fw opts f groupIdx raw)
      (enqueueBridge fw f groupIdx bytes) := by
  rintro s st ⟨hrep, hread, hmade, hfree, hidle⟩
  have hsame : Represents fw opts slots rest s { st with queue := st.queue ++ [] } := by
    rw [List.append_nil]
    exact hrep
  have hbridging : st.bridging = s.shared.bridging := congrArg Shared.bridging hrep.shared
  rw [enqueueBridge, enqueue_apply]
  cases hengine : s.shared.bridging with
  | none =>
      have hmem : Mem.bridgeCopy fw opts f groupIdx raw s = (.ok (), s) := by
        rw [Mem.bridgeCopy, hengine]
      have hcopy : ShardProxy.bridgeCopy fw st.bridging f groupIdx bytes = [] := by
        rw [hbridging, hengine, ShardProxy.bridgeCopy]
      rw [hmem, hcopy]
      exact ⟨rfl, hsame⟩
  | some secondary =>
      by_cases hgroup : secondary.groupIndex f.txID ≠ groupIdx
      · have hmem : Mem.bridgeCopy fw opts f groupIdx raw s = Mem.enqueueData opts raw
            (fw.addrFor (secondary.groupIndex f.txID)) (secondary.groupIndex f.txID) s := by
          rw [Mem.bridgeCopy, hengine]
          exact if_pos hgroup
        have hcopy : ShardProxy.bridgeCopy fw st.bridging f groupIdx bytes =
            [ShardProxy.enqueueData bytes (fw.addrFor (secondary.groupIndex f.txID))
              (secondary.groupIndex f.txID)] := by
          rw [hbridging, hengine, ShardProxy.bridgeCopy]
          exact if_pos hgroup
        have hqueued := hrep.enqueue ⟨raw, fw.addrFor (secondary.groupIndex f.txID),
          secondary.groupIndex f.txID, "", true, none⟩ hmade hfree hidle fun _ hbuf => by cases hbuf
        rw [SliceReq.shows, hread] at hqueued
        rw [hmem, hcopy]
        exact ⟨rfl, hqueued⟩
      · have hmem : Mem.bridgeCopy fw opts f groupIdx raw s = (.ok (), s) := by
          rw [Mem.bridgeCopy, hengine]
          exact if_neg hgroup
        have hcopy : ShardProxy.bridgeCopy fw st.bridging f groupIdx bytes = [] := by
          rw [hbridging, hengine, ShardProxy.bridgeCopy]
          exact if_neg hgroup
        rw [hmem, hcopy]
        exact ⟨rfl, hsame⟩

theorem agrees_enqueueTx {n : Nat} (hn : bytes.length = n) (f : Frame) (groupIdx : UInt32) :
    Agrees (Represents fw opts slots ((buf, ahead ++ bytes ++ tail) :: rest))
      (Represents fw opts slots rest) (Mem.enqueueTx fw opts f groupIdx ⟨buf, ahead.length, n⟩)
      (ShardProxy.enqueueTx fw f groupIdx bytes) := by
  rw [enqueueTx_eq, Mem.enqueueTx]
  refine agrees_bind ?_ (fun s st hpost => hpost.1) fun _ => agrees_bridgeCopy f groupIdx _
  intro s st hrep
  obtain ⟨hresult, hqueued⟩ := agrees_enqueue hn (fw.addrFor groupIdx) groupIdx "" true s st hrep
  have hplacing := hrep.sound.placing
  subst hn
  exact ⟨hresult, hqueued, hrep.read, hplacing.made,
    fun hmem => hplacing.pool (List.mem_append_left _ hmem), hplacing.idle⟩

/-- A fragment is written into a pool buffer, whatever that held, and queued there. -/
theorem agrees_fragmentStep (hlaws : FragmentLaws env) {plan : FragPlan} {k i : Nat}
    (hsize : 0 < fw.fragDataSize) (hk : k = fw.fragTotal plan.payload) (hmax : k ≤ 65535)
    (hi : i < k) {contents : Bytes} {payload : Slice}
    (hpayload : ∀ heap : Heap UInt8, heap.buffer buf = contents →
      heap.read payload = plan.payload) :
    Agrees (Represents fw opts slots ((buf, contents) :: rest))
      (Represents fw opts slots ((buf, contents) :: rest))
      (Mem.fragmentStep env fw opts payload plan k i)
      (Fw.emit (fragmentPiece env fw plan k i)) := by
  intro s st hrep
  obtain ⟨hashKey, seqNum, s₁, st₁, hnext, hnext', hrep₁⟩ := hrep.nextSeq env plan.flow
  obtain ⟨pooled, held, s₂, hget, hlength, hslot, hrep₂⟩ := hrep₁.poolGet
  have hplaced := plan.placed hsize hk hmax hi hashKey seqNum
  have hfits : headerSizeV3 + (chunk plan.payload fw.fragDataSize i).length ≤ poolSize fw :=
    Nat.add_le_add_left (length_chunk_le plan i) _
  have hencode := hlaws.encode hplaced (hlength ▸ hfits)
  have hplanned := encodePlanned_eq hlaws plan hplaced (hlength ▸ hfits)
  have hpool : headerSizeV3 + (chunk plan.payload fw.fragDataSize i).length ≤
      (env.poolBuffer (headerSizeV3 + fw.fragDataSize) i).length := by
    rw [env.length_poolBuffer]
    exact hfits
  rw [encodePlanned, hencode, Option.some.injEq] at hplanned
  -- the forwarder queues the fragment of the plan
  have hforwarder : Fw.emit (fragmentPiece env fw plan k i) st =
      (.ok ⟨⟩, { st₁ with queue := st₁.queue ++
        [plan.enqueue (planDatagram env fw plan k i hashKey seqNum)] }) := by
    rw [fragmentPiece, Fw.emit_bind, Fw.bind_of_ok hnext']
    dsimp only
    rw [encodePlanned_eq hlaws plan hplaced hpool]
    rfl
  -- the lane writes it over the buffer it was handed
  have hheld : Represents fw opts slots ((pooled, [] ++ held ++ []) :: (buf, contents) :: rest)
      s₂ st₁ := by
    rwa [List.append_nil]
  have hwritten := length_withByte7 plan.byte7
    (env.fragmentBytes (plan.args fw i k hashKey seqNum) ++
      held.drop (headerSizeV3 + (plan.args fw i k hashKey seqNum).fragData.length))
  obtain ⟨s₃, hedit, hrep₃⟩ := hheld.edit hlength fun _ => withByte7 plan.byte7
    (env.fragmentBytes (plan.args fw i k hashKey seqNum) ++
      held.drop (headerSizeV3 + (plan.args fw i k hashKey seqNum).fragData.length))
  rw [List.append_nil, List.nil_append] at hrep₃
  have hdata : Mem.read payload s₂ = (.ok plan.payload, s₂) := by
    rw [Mem.read, hpayload s₂.heap (hrep₂.forget.sound.holds _ List.mem_cons_self)]
  have hbytes : Mem.read ⟨pooled, 0, poolSize fw⟩ s₂ = (.ok held, s₂) := by
    rw [← hlength, Mem.read]
    exact congrArg (fun bytes => (Except.ok bytes, s₂)) hheld.read
  have hlane : Mem.fragmentStep env fw opts payload plan k i s =
      Mem.enqueueFragment opts plan ⟨pooled, 0, headerSizeV3 +
        (plan.args fw i k hashKey seqNum).fragData.length⟩ pooled s₃ := by
    rw [Mem.fragmentStep, Comp.bind_of_ok hnext]
    dsimp only
    rw [Comp.bind_of_ok hget, Comp.bind_of_ok hdata, Comp.bind_of_ok hbytes, hencode]
    exact Comp.bind_of_ok hedit _
  have hrest := hlaws.length (plan.args fw i k hashKey seqNum)
  rw [List.length_append, List.length_drop, hrest, hlength] at hwritten
  have hfull := hwritten.trans (Nat.add_sub_cancel' hfits)
  have hqueued := hrep₃.enqueue_pooled ⟨⟨pooled, 0, headerSizeV3 +
    (plan.args fw i k hashKey seqNum).fragData.length⟩, plan.dst, plan.groupIdx, plan.ctrlLabel,
      true, some pooled⟩ rfl rfl hslot hfull
  rw [SliceReq.shows, Heap.read_front, hrep₃.sound.holds _ List.mem_cons_self, hplanned] at hqueued
  rw [hlane, hforwarder]
  exact ⟨rfl, hqueued⟩

theorem agrees_fragmentLoop (hlaws : FragmentLaws env) {plan : FragPlan} {k : Nat}
    (hsize : 0 < fw.fragDataSize) (hk : k = fw.fragTotal plan.payload) (hmax : k ≤ 65535)
    {contents : Bytes} {payload : Slice}
    (hpayload : ∀ heap : Heap UInt8, heap.buffer buf = contents →
      heap.read payload = plan.payload) {indices : List Nat} (hindices : ∀ i ∈ indices, i < k) :
    Agrees (Represents fw opts slots ((buf, contents) :: rest))
      (Represents fw opts slots ((buf, contents) :: rest))
      (Mem.fragmentLoop env fw opts payload plan k indices)
      (Fw.emit (ShardProxy.fragmentLoop env fw plan k indices)) := by
  induction indices with
  | nil => exact fun s st hrep => by rw [ShardProxy.fragmentLoop, Fw.emit_pure]; exact ⟨rfl, hrep⟩
  | cons i later ih =>
      have hloop : ShardProxy.fragmentLoop env fw plan k (i :: later) =
          fragmentPiece env fw plan k i >>= fun _ =>
            ShardProxy.fragmentLoop env fw plan k later := by
        rfl
      rw [hloop, Fw.emit_bind, Mem.fragmentLoop]
      refine agrees_bind (agrees_fragmentStep hlaws hsize hk hmax (hindices i List.mem_cons_self)
        hpayload) (fun s st hrep => hrep) fun _ => ih ?_
      exact fun j hj => hindices j (List.mem_cons_of_mem i hj)

/-- The fragments of a frame, from the frame as it lies. -/
theorem agrees_fragmentWith (hlaws : FragmentLaws env) {plan : FragPlan}
    (hsize : 0 < fw.fragDataSize) {contents : Bytes} {payload : Slice}
    (hpayload : ∀ heap : Heap UInt8, heap.buffer buf = contents →
      heap.read payload = plan.payload) :
    Agrees (Represents fw opts slots ((buf, contents) :: rest)) (Represents fw opts slots rest)
      (Mem.fragmentWith env fw opts payload plan) (ShardProxy.fragmentWith env fw plan) := by
  rw [Mem.fragmentWith, ShardProxy.fragmentWith]
  split
  · exact agrees_fail (fun s st hrep => hrep.forget) _
  · rename_i hfit
    have hpure : Fw.emit (do
          ShardProxy.fragmentLoop env fw plan (fw.fragTotal plan.payload)
            (List.range (fw.fragTotal plan.payload))
          pure ()) =
        Fw.emit (ShardProxy.fragmentLoop env fw plan (fw.fragTotal plan.payload)
          (List.range (fw.fragTotal plan.payload))) := by
      funext st
      simp only [Fw.emit, run_bind, run_pure, List.append_nil]
    rw [hpure]
    intro s st hrep
    obtain ⟨hresult, hstates⟩ := agrees_fragmentLoop hlaws hsize rfl (Nat.le_of_not_lt hfit)
      hpayload (fun i hi => List.mem_range.mp hi) s st hrep
    exact ⟨hresult, hstates.forget⟩

/-- The payload of a frame, where it lies. -/
theorem read_payloadOf {payload after : Bytes} (hsize : headerSize ≤ bytes.length)
    (hpayload : bytes.drop headerSize = payload ++ after) {heap : Heap UInt8}
    (hheap : heap.buffer buf = ahead ++ bytes ++ tail) :
    heap.read (payloadOf (lying buf ahead bytes) payload) = payload ∧
      (payloadOf (lying buf ahead bytes) payload).Inside heap := by
  have hlength := congrArg List.length hpayload
  rw [List.length_drop, List.length_append] at hlength
  have hfit : headerSize + payload.length ≤ (lying buf ahead bytes).len := by
    change headerSize + payload.length ≤ bytes.length
    omega
  have hinside : (lying buf ahead bytes).Inside heap := by
    change ahead.length + bytes.length ≤ (heap.buffer buf).length
    rw [hheap, List.length_append, List.length_append]
    omega
  refine ⟨?_, hinside.within hfit⟩
  rw [payloadOf, Heap.read_within hfit, lying, Heap.read_between hheap, hpayload, List.take_left]

theorem Represents.coalesces (hrep : Represents fw opts slots idle s st) (payload : Bytes) :
    Coalesces env fw s payload ↔ ShardProxy.coalesces env fw st payload := by
  rw [Coalesces, ShardProxy.coalesces, hrep.coal, Option.isSome_map,
    show st.bridging = s.shared.bridging from congrArg Shared.bridging hrep.shared]

theorem agrees_processAnchor (hdec : DecodeLaws env) (src : Option NetAddr) :
    Agrees (Represents fw opts slots ((buf, ahead ++ bytes ++ tail) :: rest))
      (Represents fw opts slots rest) (Mem.processAnchor env fw opts (lying buf ahead bytes) src)
      (ShardProxy.processAnchor env fw bytes src) := by
  refine agrees_read (agrees_check (fun s st hrep => hrep.forget) fun f hgates => ?_)
  refine agrees_bind (agrees_shares (sharesOnly_claimIngressIn _ _ _))
    (fun s st hrep => hrep.forget) fun _ => ?_
  cases src with
  | none => exact agrees_enqueue rfl _ _ _ _
  | some src =>
      exact agrees_stamp (hdec.decodeAnchor_size (anchorGates_ok hgates))
        fun stamped hlength => agrees_enqueue hlength _ _ _ _

theorem agrees_processBundle :
    Agrees (Represents fw opts slots ((buf, ahead ++ bytes ++ tail) :: rest))
      (Represents fw opts slots rest) (Mem.processBundle fw opts (lying buf ahead bytes))
      (ShardProxy.processBundle fw bytes) :=
  agrees_read (agrees_check (fun _ _ hrep => hrep.forget) fun _ _ =>
    agrees_enqueue rfl _ _ _ _)

theorem agrees_emitBEEF (hlaws : FragmentLaws env) {bf : BEEFFrame} {after : Bytes} {n : Nat}
    (hn : bytes.length = n) (hsize : headerSize ≤ bytes.length)
    (hpayload : bytes.drop headerSize = bf.payload ++ after) (groupIdx : UInt32)
    (src : Option NetAddr) :
    Agrees (Represents fw opts slots ((buf, ahead ++ bytes ++ tail) :: rest))
      (Represents fw opts slots rest)
      (Mem.emitBEEF env fw opts ⟨buf, ahead.length, n⟩ bf groupIdx src)
      (ShardProxy.emitBEEF env fw ⟨bf, groupIdx, bytes⟩ src) := by
  subst hn
  cases src with
  | none => exact agrees_enqueue rfl _ _ _ _
  | some src =>
      simp only [Mem.emitBEEF, ShardProxy.emitBEEF]
      split
      · rename_i hfragments
        exact agrees_fragmentWith hlaws hfragments.1
          fun heap hheap => (read_payloadOf hsize hpayload hheap).1
      · exact agrees_stamp hsize fun stamped hlength => agrees_enqueue hlength _ _ _ _

/-- The checks and the sending of a BEEF frame, one after the other. -/
theorem processBEEF_unfold (raw : Bytes) (src : Option NetAddr) (now : Time)
    (checkContentID : Bool) :
    ShardProxy.processBEEF env fw raw src now checkContentID =
      Fw.gate (beefGates env fw raw src) >>= fun (engine, bf, topics) =>
        let set := ShardProxy.setDeliverCount fw bf raw src topics
        chargeBudget env src set.2.length now >>= fun _ =>
          Fw.gate (contentGate env set.1 src checkContentID) >>= fun _ =>
            claimBEEFIngress fw (beefClaimKey env set.1.contentID set.1.topicID) "brc148" >>=
              fun _ => ShardProxy.emitBEEF env fw
                ⟨set.1, engine.groupIndex set.1.topicID, set.2⟩ src := by
  simp only [ShardProxy.processBEEF, ShardProxy.checkBEEF, Fw.bind_assoc]
  rfl

theorem mem_processBEEF_unfold (raw : Slice) (src : Option NetAddr) (now : Time)
    (checkContentID : Bool) :
    Mem.processBEEF env fw opts raw src now checkContentID =
      Mem.read raw >>= fun bytes =>
        Comp.check (beefGates env fw bytes src) >>= fun (engine, bf, topics) =>
          Mem.setDeliverCount fw bf raw src topics >>= fun bf =>
            Mem.shares (chargeBudget env src raw.len now) >>= fun _ =>
              Comp.check (contentGate env bf src checkContentID) >>= fun _ =>
                Mem.shares (claimBEEFIngress fw (beefClaimKey env bf.contentID bf.topicID)
                  "brc148") >>= fun _ =>
                    Mem.emitBEEF env fw opts raw bf (engine.groupIndex bf.topicID) src := by
  simp only [Mem.processBEEF, Mem.checkBEEF, Comp.bind_assoc]
  rfl

/-- Byte 7 is set in the frame as it lies; its length and its payload stay. -/
theorem Represents.setDeliverCount
    (hrep : Represents fw opts slots ((buf, ahead ++ bytes ++ tail) :: rest) s st) (bf : BEEFFrame)
    (src : Option NetAddr) (topics : Nat) :
    ∃ s', Mem.setDeliverCount fw bf (lying buf ahead bytes) src topics s =
        (.ok (ShardProxy.setDeliverCount fw bf bytes src topics).1, s') ∧
      Represents fw opts slots
        ((buf, ahead ++ (ShardProxy.setDeliverCount fw bf bytes src topics).2 ++ tail) :: rest)
        s' st := by
  cases src with
  | none => exact ⟨s, rfl, hrep⟩
  | some src =>
      obtain ⟨s', hedit, hrep'⟩ := hrep.edit rfl fun bytes => bytes.set 7
        (UInt8.ofNat (beefDeliverCount fw (some src) topics))
      refine ⟨s', ?_, hrep'⟩
      exact Comp.bind_of_ok hedit _

theorem setDeliverCount_frame (fw : Forwarder) (bf : BEEFFrame) (raw : Bytes)
    (src : Option NetAddr) (topics : Nat) :
    (ShardProxy.setDeliverCount fw bf raw src topics).2.length = raw.length ∧
      (ShardProxy.setDeliverCount fw bf raw src topics).2.drop headerSize = raw.drop headerSize ∧
      (ShardProxy.setDeliverCount fw bf raw src topics).1.payload = bf.payload := by
  cases src with
  | none => exact ⟨rfl, rfl, rfl⟩
  | some src => exact ⟨List.length_set, List.drop_set_of_lt (by decide), rfl⟩

variable (hdec : DecodeLaws env) (hlaws : FragmentLaws env) (hpay : PayloadLaws env)

include hdec hlaws hpay

theorem agrees_emitTx {f : Frame} (hdecode : env.decode bytes = some f)
    (src : Option NetAddr) :
    Agrees (Represents fw opts slots ((buf, ahead ++ bytes ++ tail) :: rest))
      (Represents fw opts slots rest) (Mem.emitTx env fw opts (lying buf ahead bytes) f src)
      (ShardProxy.emitTx env fw bytes f src) := by
  intro s st hrep
  cases src with
  | none => exact agrees_enqueueTx rfl f _ s st hrep
  | some src =>
      simp only [Mem.emitTx, ShardProxy.emitTx]
      by_cases hversion : f.version ≠ frameVerV2
      · rw [if_pos hversion, if_pos hversion]
        exact agrees_enqueueTx rfl f _ s st hrep
      · rw [if_neg hversion, if_neg hversion]
        have hv2 : f.version = frameVerV2 := not_not.mp hversion
        have hsize := (hdec.decode_size hdecode hv2).1
        obtain ⟨after, hpayload⟩ := hpay.decode hdecode hv2
        by_cases hfragments : fw.fragments f.payload
        · rw [if_pos hfragments, if_pos hfragments]
          exact agrees_fragmentWith hlaws hfragments.1
            (fun heap hheap => (read_payloadOf hsize hpayload hheap).1) s st hrep
        · rw [if_neg hfragments, if_neg hfragments]
          by_cases hwaits : Coalesces env fw s f.payload
          · rw [if_pos hwaits, if_pos ((hrep.coalesces f.payload).mp hwaits)]
            have hholds : s.heap.buffer buf = ahead ++ bytes ++ tail :=
              hrep.sound.holds _ List.mem_cons_self
            obtain ⟨hread, hinside⟩ := read_payloadOf hsize hpayload hholds
            have hbuffered := hrep.bufferMember
              ⟨addrToIPv6 src, fw.engine.groupIndex f.txID, f.subtreeID⟩
              ⟨f.txID, payloadOf (lying buf ahead bytes) f.payload⟩ rfl hinside
            rw [SliceMember.shows, hread] at hbuffered
            exact ⟨rfl, hbuffered⟩
          · rw [if_neg hwaits, if_neg (fun h => hwaits ((hrep.coalesces f.payload).mpr h))]
            exact agrees_stamp hsize (fun stamped hlength => agrees_enqueueTx hlength f _) s st hrep

theorem agrees_process (src : Option NetAddr) (verify : Bool) :
    Agrees (Represents fw opts slots ((buf, ahead ++ bytes ++ tail) :: rest))
      (Represents fw opts slots rest) (Mem.process env fw opts (lying buf ahead bytes) src verify)
      (ShardProxy.process env fw bytes src verify) := by
  refine agrees_read (agrees_check (fun s st hrep => hrep.forget) fun f hgates => ?_)
  have hemit : Agrees (Represents fw opts slots ((buf, ahead ++ bytes ++ tail) :: rest))
      (Represents fw opts slots rest) (Mem.emitTx env fw opts (lying buf ahead bytes) f src)
      (ShardProxy.emitTx env fw bytes f src) :=
    agrees_emitTx hdec hlaws hpay (txGates_ok hgates) src
  by_cases hversion : f.version = frameVerV2
  · simp only [hversion, ↓reduceIte]
    exact agrees_bind (agrees_shares (sharesOnly_claimIngressIn _ _ _))
      (fun s st hrep => hrep.forget) fun _ => hemit
  · simp only [hversion, ↓reduceIte]
    exact hemit

/-- A bare transaction leaves nothing behind in the buffer it came in: that buffer, if it
was idle, still is. -/
theorem agrees_dispatchBareTx (tx : Slice) (src : Option NetAddr) :
    Agrees (fun s st => Represents fw opts slots idle s st ∧ s.heap.read tx = bytes)
      (Represents fw opts slots idle) (Mem.dispatchBareTx env fw opts tx src)
      (ShardProxy.dispatchBareTx env fw bytes src) := by
  rintro s st ⟨hrep, hread⟩
  have hbytes : Mem.read tx s = (.ok bytes, s) := by rw [Mem.read, hread]
  rw [Mem.dispatchBareTx, Comp.bind_of_ok hbytes, ShardProxy.dispatchBareTx]
  cases bareTxGates env fw bytes with
  | error drop => exact ⟨rfl, hrep⟩
  | ok framed =>
      exact agrees_process hdec hlaws hpay src false _ st (hrep.alloc_lying framed)

theorem agrees_processBlock (src : Option NetAddr) :
    Agrees (Represents fw opts slots ((buf, ahead ++ bytes ++ tail) :: rest))
      (Represents fw opts slots rest) (Mem.processBlock env fw opts (lying buf ahead bytes) src)
      (ShardProxy.processBlock env fw bytes src) := by
  refine agrees_read (agrees_check (fun s st hrep => hrep.forget) fun bf hgates => ?_)
  refine agrees_bind (agrees_shares (sharesOnly_claimIngressIn _ _ _))
    (fun s st hrep => hrep.forget) fun _ => ?_
  have hsize := (hdec.decodeBlock_size (blockGates_ok hgates)).1
  obtain ⟨after, hpayload⟩ := hpay.decodeBlock (blockGates_ok hgates)
  cases src with
  | none => exact agrees_enqueue rfl _ _ _ _
  | some src =>
      simp only [Mem.emitBlock, ShardProxy.emitBlock]
      split
      · rename_i hfragments
        exact agrees_fragmentWith hlaws hfragments.1
          fun heap hheap => (read_payloadOf hsize hpayload hheap).1
      · exact agrees_stamp hsize fun stamped hlength => agrees_enqueue hlength _ _ _ _

theorem agrees_processSubtreeData (src : Option NetAddr) :
    Agrees (Represents fw opts slots ((buf, ahead ++ bytes ++ tail) :: rest))
      (Represents fw opts slots rest)
      (Mem.processSubtreeData env fw opts (lying buf ahead bytes) src)
      (ShardProxy.processSubtreeData env fw bytes src) := by
  refine agrees_read (agrees_check (fun s st hrep => hrep.forget) fun sf hgates => ?_)
  refine agrees_bind (agrees_shares (sharesOnly_claimIngressIn _ _ _))
    (fun s st hrep => hrep.forget) fun _ => ?_
  have hsize := (hdec.decodeSubtreeData_size (subtreeGates_ok hgates)).1
  obtain ⟨after, hpayload⟩ := hpay.decodeSubtreeData (subtreeGates_ok hgates)
  cases src with
  | none => exact agrees_enqueue rfl _ _ _ _
  | some src =>
      simp only [Mem.emitSubtreeData, ShardProxy.emitSubtreeData]
      split
      · rename_i hfragments
        exact agrees_fragmentWith hlaws hfragments.1
          fun heap hheap => (read_payloadOf hsize hpayload hheap).1
      · exact agrees_stamp hsize fun stamped hlength => agrees_enqueue hlength _ _ _ _

theorem agrees_processBEEF (src : Option NetAddr) (now : Time) (checkContentID : Bool) :
    Agrees (Represents fw opts slots ((buf, ahead ++ bytes ++ tail) :: rest))
      (Represents fw opts slots rest)
      (Mem.processBEEF env fw opts (lying buf ahead bytes) src now checkContentID)
      (ShardProxy.processBEEF env fw bytes src now checkContentID) := by
  rw [mem_processBEEF_unfold, processBEEF_unfold]
  refine agrees_read (agrees_check (fun s st hrep => hrep.forget) ?_)
  rintro ⟨engine, bf, topics⟩ hgates s st hrep
  obtain ⟨s', hset, hrep'⟩ := hrep.setDeliverCount bf src topics
  obtain ⟨hlength, hbody, hsame⟩ := setDeliverCount_frame fw bf bytes src topics
  have hsize := (hdec.decodeBEEF_size (beefGates_ok hgates)).1
  obtain ⟨after, hpayload⟩ := hpay.decodeBEEF (beefGates_ok hgates)
  dsimp only
  rw [Comp.bind_of_ok hset]
  generalize ShardProxy.setDeliverCount fw bf bytes src topics = set at hlength hbody hsame hrep' ⊢
  have hcharged : (lying buf ahead bytes).len = set.2.length := hlength.symm
  rw [hcharged]
  refine agrees_bind (agrees_shares (sharesOnly_chargeBudget env src _ now))
    (fun s st hrep => hrep.forget) (fun _ => ?_) s' st hrep'
  refine agrees_check (fun s st hrep => hrep.forget) fun _ _ => ?_
  refine agrees_bind (agrees_shares (sharesOnly_claimBEEFIngress fw _ _))
    (fun s st hrep => hrep.forget) fun _ => ?_
  have hafter : set.2.drop headerSize = set.1.payload ++ after := by
    rw [hbody, hsame]
    exact hpayload
  exact agrees_emitBEEF hlaws hlength (hlength.symm ▸ hsize) hafter _ src

theorem agrees_dispatchBEEF (p : PreparedBEEF) (src : Option NetAddr) (now : Time) :
    Agrees (Represents fw opts slots idle) (Represents fw opts slots idle)
      (Mem.dispatchBEEF env fw opts p src now) (ShardProxy.dispatchBEEF env fw p src now) := by
  rw [Mem.dispatchBEEF, ShardProxy.dispatchBEEF]
  cases p.frame with
  | none => exact agrees_fail (fun s st hrep => hrep) _
  | some frame =>
      intro s st hrep
      exact agrees_processBEEF hdec hlaws hpay src now false _ st (hrep.alloc_lying frame)

/-- An input that is not framed leaves nothing behind in the buffer it came in: that
buffer, if it was idle, still is. -/
theorem agrees_dispatchClass_unframed (hunframed : ¬ framed bytes) (raw : Slice)
    (src : Option NetAddr) (now : Time) (cls : IngressClass) :
    Agrees (fun s st => Represents fw opts slots idle s st ∧ s.heap.read raw = bytes)
      (Represents fw opts slots idle) (Mem.dispatchClass env fw opts raw src now cls)
      (ShardProxy.dispatchClass env fw bytes src now cls) := by
  rintro s st ⟨hrep, hread⟩
  have hbytes : Mem.read raw s = (.ok bytes, s) := by rw [Mem.read, hread]
  rw [Mem.dispatchClass, Comp.bind_of_ok hbytes, ShardProxy.dispatchClass, if_pos hunframed,
    if_pos hunframed]
  split
  · exact agrees_dispatchBEEF hdec hlaws hpay _ src now s st hrep
  · split
    · exact agrees_fail (fun s st hrep => hrep) _ s st hrep
    · exact agrees_dispatchBareTx hdec hlaws hpay raw src s st ⟨hrep, hread⟩

/-- Every datagram is dispatched in memory as the forwarder dispatches its bytes. -/
theorem agrees_dispatchClass (src : Option NetAddr) (now : Time) (cls : IngressClass) :
    Agrees (Represents fw opts slots ((buf, ahead ++ bytes ++ tail) :: rest))
      (Represents fw opts slots rest)
      (Mem.dispatchClass env fw opts (lying buf ahead bytes) src now cls)
      (ShardProxy.dispatchClass env fw bytes src now cls) := by
  have hforget : ∀ s st, Represents fw opts slots ((buf, ahead ++ bytes ++ tail) :: rest) s st →
      Represents fw opts slots rest s st := fun s st hrep => hrep.forget
  by_cases hunframed : ¬ framed bytes
  · intro s st hrep
    obtain ⟨hresult, hstates⟩ := agrees_dispatchClass_unframed hdec hlaws hpay hunframed
      (lying buf ahead bytes) src now cls s st ⟨hrep, hrep.read⟩
    exact ⟨hresult, hstates.forget⟩
  · rw [Mem.dispatchClass, ShardProxy.dispatchClass, if_neg hunframed]
    refine agrees_read ?_
    rw [if_neg hunframed]
    split_ifs
    · exact agrees_fail hforget _
    · exact agrees_processBlock hdec hlaws hpay src
    · exact agrees_fail hforget _
    · exact agrees_processSubtreeData hdec hlaws hpay src
    · exact agrees_fail hforget _
    · exact agrees_processAnchor hdec src
    · exact agrees_processBEEF hdec hlaws hpay src now true
    · exact agrees_fail hforget _
    · exact agrees_processBundle
    · exact agrees_fail hforget _
    · exact agrees_process hdec hlaws hpay src _

end Paths

end Mem

end ShardProxy
