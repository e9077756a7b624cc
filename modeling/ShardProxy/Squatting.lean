/-
Squatting on a transaction's claim.  The ids of transactions share one claim
space with everything else that arrives on the open socket.  A transaction
dispatched for the first time wins its claim unless an anchor, whose id nobody
verifies, has named it before.
-/
import ShardProxy.Routing

namespace ShardProxy

open ByteField

/-- One arrival on the open lanes: a datagram of the transaction socket, or a bare
transaction handed to `DispatchBareTx`. -/
inductive Arrival where
  | datagram (raw : Bytes) (src : Option NetAddr) (now : Time)
  | bare (tx : Bytes) (src : Option NetAddr)

section Arrivals

variable (env : Env) (fw : Forwarder)

def Arrival.dispatch : Arrival → Fw Unit
  | .datagram raw src now => dispatchClass env fw raw src now .transaction
  | .bare tx src => dispatchBareTx env fw tx src

def dispatchAll (arrivals : List Arrival) (st : FwState) : FwState :=
  arrivals.foldl (fun st arrival => (arrival.dispatch env fw st).2) st

/-- The arrival carries a transaction payload with a canonical id: bare, in a
transaction frame, or in an anchor. -/
def Arrival.Carries (id : Hash32) : Arrival → Prop
  | .bare tx _ => env.txID tx = some id
  | .datagram raw _ _ =>
      (¬ framed raw ∧ env.txID raw = some id) ∨
      (∃ f, env.decode raw = some f ∧ env.txID f.payload = some id) ∨
      (∃ f, env.decodeAnchor raw = some f ∧ env.txID f.payload = some id)

/-- The arrival is an anchor that names an id. -/
def Arrival.AnchorNames (id : Hash32) : Arrival → Prop
  | .bare _ _ => False
  | .datagram raw _ _ =>
      framed raw ∧ versionByte raw = some frameVerV6 ∧
        ∃ f, env.decodeAnchor raw = some f ∧ f.txID = id

/-- A well-formed transaction with a canonical id, as a bare submission or as an
unstamped frame of exactly one transaction under its own id, that passes the
configured checks. -/
inductive Honest (id : Hash32) : Arrival → Prop where
  | bare {tx framed : Bytes} {src : Option NetAddr}
      (hgates : bareTxGates env fw tx = .ok framed) (hid : env.txID tx = some id) :
      Honest id (.bare tx src)
  | submission {tx framing : Bytes} {src : Option NetAddr} {now : Time}
      (hunframed : ¬ framed tx)
      (hrecord : ¬ (2 ≤ tx.length ∧ uint16At tx 0 = beefRecordTag))
      (hgates : bareTxGates env fw tx = .ok framing) (hid : env.txID tx = some id) :
      Honest id (.datagram tx src now)
  | frame {raw : Bytes} {f : Frame} {src : Option NetAddr} {now : Time}
      (hframed : framed raw) (hbyte : versionByte raw = some frameVerV2)
      (hdecode : env.decode raw = some f) (hversion : f.version = frameVerV2)
      (hunstamped : f.seqNum = 0) (hformat : fw.requireEF = true → env.isEF f.payload = true)
      (hone : env.txSize f.payload = some f.payload.length)
      (hown : env.txID f.payload = some f.txID) (hid : f.txID = id) :
      Honest id (.datagram raw src now)

/-- The arrival is not suppressed and takes the claim nobody held before. -/
structure WinsClaim (ref : DedupRef) (id : Hash32) (arrival : Arrival) (st : FwState) :
    Prop where
  admitted : ∀ frameType, (arrival.dispatch env fw st).1 ≠ .error (.deduped frameType)
  free : (ref.keySpace, id) ∉ st.stores ref.store
  taken : (ref.keySpace, id) ∈ (arrival.dispatch env fw st).2.stores ref.store

end Arrivals

section Claims

variable {env : Env} {fw : Forwarder} {src : Option NetAddr} {now : Time} {st : FwState}

theorem txCandidate_key {raw : Bytes} {verify : Bool} {c : Candidate}
    (hsome : txCandidate env fw raw verify = some c) :
    ∃ f, txGates env fw raw verify = .ok f ∧ c.key = f.txID ∧ c.dedup = fw.txDedup := by
  rw [txCandidate] at hsome
  split at hsome
  · cases hsome
  · rename_i f hgates
    obtain rfl := Option.some.inj hsome
    exact ⟨f, hgates, rfl, rfl⟩

theorem beefCandidate_key {raw : Bytes} {checkContentID : Bool} {c : Candidate}
    (hsome : beefCandidate env fw raw src now checkContentID st = some c) :
    ∃ contentID topicID, c.key = beefClaimKey env contentID topicID := by
  rw [beefCandidate] at hsome
  split at hsome
  · cases hsome
  · simp only at hsome
    split at hsome
    · obtain rfl := Option.some.inj hsome
      exact ⟨_, _, rfl⟩
    · cases hsome

/-- With verification on, an admitted V2 frame names its own payload. -/
theorem txGates_verified {raw : Bytes} {f : Frame} (hgates : txGates env fw raw true = .ok f)
    (hversion : f.version = frameVerV2) : env.txID f.payload = some f.txID := by
  by_contra hforged
  have hdecode := txGates_ok hgates
  rw [txGates, hdecode] at hgates
  simp only [hversion, true_and] at hgates
  split at hgates
  · cases hgates
  · split at hgates
    · cases hgates
    · split at hgates
      · cases hgates
      · cases hgates

/-- A bare transaction that passes its checks is a candidate for its own id. -/
theorem bareTx_candidate (hsub : SubmissionLaws env) {tx framing : Bytes} {id : Hash32}
    (hgates : bareTxGates env fw tx = .ok framing) (hid : env.txID tx = some id) :
    ∃ c, (Entry.bareTx tx).candidate env fw src now st = some c ∧ c.dedup = fw.txDedup ∧
      c.key = id := by
  obtain ⟨own, hown, hdecode⟩ := bareTxGates_ok hsub hgates
  obtain rfl := Option.some.inj (hown.symm.trans hid)
  have hformat : fw.requireEF = true → env.isEF tx = true := by
    intro hrequired
    by_contra hplain
    rw [bareTxGates, if_pos (c := _ ∧ _) ⟨hrequired, Bool.not_eq_true _ ▸ hplain⟩] at hgates
    split at hgates <;> cases hgates
  have hframe : txGates env fw framing false = .ok ⟨frameVerV2, own, 0, zeroHash, tx⟩ :=
    txGates_of_unstamped hdecode rfl rfl hformat (fun h => by cases h) (fun h => by cases h)
  refine ⟨⟨fw.txDedup, own, own, framing, tx, true⟩, ?_, rfl, rfl⟩
  simp only [Entry.candidate, hgates, txCandidate, hframe]

theorem process_legacy_stores {raw : Bytes} {verify : Bool} {f : Frame}
    (hdecode : env.decode raw = some f) (hversion : f.version = frameVerV1) :
    (process env fw raw src verify st).2.stores = st.stores := by
  cases hgates : txGates env fw raw verify with
  | error drop => rw [process, Fw.gate_bind_error hgates]
  | ok admitted =>
      obtain rfl := Option.some.inj (hdecode.symm.trans (txGates_ok hgates))
      have hlegacy : f.version ≠ frameVerV2 := by
        rw [hversion]
        decide
      have hrun : process env fw raw src verify st =
          (legacyOut fw st.bridging raw f).send env st := by
        rw [process, Fw.gate_bind_ok hgates, ← emitTx_of_legacy env fw hlegacy]
        simp only [hlegacy, ↓reduceIte]
        rfl
      rw [hrun, Outgoing.send]
      simp only [legacyOut, enqueue_apply]

theorem processBundle_stores (raw : Bytes) :
    (processBundle fw raw st).2.stores = st.stores := by
  cases hgates : bundleGates raw with
  | error drop => rw [processBundle, Fw.gate_bind_error hgates]
  | ok passed => rw [processBundle, Fw.gate_bind_ok hgates, enqueue_apply]

end Claims

section Runs

variable {env : Env} {fw : Forwarder} {ref : DedupRef} {id : Hash32}

/-- The open lanes with verification on and one dedup store, seen from an id that
is no BEEF claim key. -/
structure OpenLane (env : Env) (fw : Forwarder) (ref : DedupRef) (id : Hash32) : Prop where
  decode : DecodeLaws env
  fragment : FragmentLaws env
  submission : SubmissionLaws env
  store : fw.txDedup = some ref
  verify : fw.verifyPayloadHash = true
  apart : ∀ contentID topicID, beefClaimKey env contentID topicID ≠ id

/-- An entry point that cannot claim an id leaves its claim as it was. -/
theorem OpenLane.claim_iff (h : OpenLane env fw ref id) {entry : Entry}
    {src : Option NetAddr} {now : Time} {st : FwState} (hlegacy : entry.NotLegacy env)
    (hkey : ∀ c, entry.candidate env fw src now st = some c → c.key ≠ id) :
    (ref.keySpace, id) ∈ (entry.run env fw src now st).2.stores ref.store ↔
      (ref.keySpace, id) ∈ st.stores ref.store := by
  have houtcome : Outcome env fw entry src now st _ _ :=
    entry.outcome h.decode h.fragment h.submission h.store hlegacy
  rw [houtcome.mem_stores ref.store]
  refine or_iff_left ?_
  rintro ⟨c, own, hsome, _, _, hclaim⟩
  exact hkey c hsome (congrArg Prod.snd hclaim).symm

theorem OpenLane.bareTx_iff (h : OpenLane env fw ref id) {tx : Bytes}
    (hcarries : env.txID tx ≠ some id) (src : Option NetAddr) (now : Time) (st : FwState) :
    (ref.keySpace, id) ∈ ((Entry.bareTx tx).run env fw src now st).2.stores ref.store ↔
      (ref.keySpace, id) ∈ st.stores ref.store := by
  refine h.claim_iff trivial ?_
  intro c hsome hkey
  rw [Entry.candidate] at hsome
  split at hsome
  · cases hsome
  · rename_i framing hgates
    obtain ⟨f, htx, hc, _⟩ := txCandidate_key hsome
    obtain ⟨own, hown, hdecode⟩ := bareTxGates_ok h.submission hgates
    obtain rfl := Option.some.inj (hdecode.symm.trans (txGates_ok htx))
    exact hcarries (hown.trans (congrArg some (hc.symm.trans hkey)))

theorem OpenLane.process_iff (h : OpenLane env fw ref id) {raw : Bytes}
    (hcarries : ∀ f, env.decode raw = some f → env.txID f.payload ≠ some id)
    (src : Option NetAddr) (now : Time) (st : FwState) :
    (ref.keySpace, id) ∈ ((Entry.process raw).run env fw src now st).2.stores ref.store ↔
      (ref.keySpace, id) ∈ st.stores ref.store := by
  by_cases hlegacy : ∃ f, env.decode raw = some f ∧ f.version = frameVerV1
  · obtain ⟨f, hdecode, hversion⟩ := hlegacy
    rw [Entry.run, processFrame, process_legacy_stores hdecode hversion]
  · have hnot : (Entry.process raw).NotLegacy env := fun f hdecode hversion =>
      hlegacy ⟨f, hdecode, hversion⟩
    refine h.claim_iff hnot ?_
    intro c hsome hkey
    rw [Entry.candidate, h.verify] at hsome
    obtain ⟨f, hgates, hc, _⟩ := txCandidate_key hsome
    have hdecode := txGates_ok hgates
    have hversion := (h.decode.decode_version hdecode).resolve_left (hnot f hdecode)
    have hown := txGates_verified hgates hversion
    exact hcarries f hdecode (hown.trans (congrArg some (hc.symm.trans hkey)))

theorem OpenLane.beef_iff (h : OpenLane env fw ref id) {entry : Entry}
    {src : Option NetAddr} {now : Time} {st : FwState} (hlegacy : entry.NotLegacy env)
    (hcandidate : ∀ c, entry.candidate env fw src now st = some c →
      ∃ raw checkContentID, beefCandidate env fw raw src now checkContentID st = some c) :
    (ref.keySpace, id) ∈ (entry.run env fw src now st).2.stores ref.store ↔
      (ref.keySpace, id) ∈ st.stores ref.store := by
  refine h.claim_iff hlegacy ?_
  intro c hsome hkey
  obtain ⟨raw, checkContentID, hbeef⟩ := hcandidate c hsome
  obtain ⟨contentID, topicID, hc⟩ := beefCandidate_key hbeef
  exact h.apart contentID topicID (hc.symm.trans hkey)

/-- An anchor claims the id it names, whatever it carries. -/
theorem OpenLane.anchor_iff (h : OpenLane env fw ref id) (raw : Bytes)
    (src : Option NetAddr) (now : Time) (st : FwState) :
    (ref.keySpace, id) ∈ ((Entry.anchor raw).run env fw src now st).2.stores ref.store ↔
      (ref.keySpace, id) ∈ st.stores ref.store ∨
        ∃ f, env.decodeAnchor raw = some f ∧ f.txID = id := by
  have houtcome : Outcome env fw (.anchor raw) src now st _ _ :=
    Entry.outcome h.decode h.fragment h.submission h.store _ trivial
  rw [houtcome.mem_stores ref.store]
  refine or_congr_right ?_
  cases hdecode : env.decodeAnchor raw with
  | none => simp [Entry.candidate, anchorGates, hdecode]
  | some f =>
      simp only [Entry.candidate, anchorGates, hdecode, h.store]
      constructor
      · rintro ⟨c, own, hsome, _, _, hclaim⟩
        obtain rfl := Option.some.inj hsome
        exact ⟨f, rfl, (congrArg Prod.snd hclaim).symm⟩
      · rintro ⟨found, hfound, rfl⟩
        obtain rfl := Option.some.inj hfound
        exact ⟨_, ref, rfl, rfl, rfl, rfl⟩

/-- The same for whatever the open socket hands a datagram to. -/
theorem OpenLane.route_iff (h : OpenLane env fw ref id) {raw : Bytes}
    {src : Option NetAddr} {now : Time}
    (hcarries : ¬ (Arrival.datagram raw src now).Carries env id) (st : FwState) :
    (ref.keySpace, id) ∈ ((route env fw raw src .transaction).run env fw raw src now st).2.stores
        ref.store ↔
      (ref.keySpace, id) ∈ st.stores ref.store ∨
        (Arrival.datagram raw src now).AnchorNames env id := by
  rw [Arrival.Carries, not_or, not_or] at hcarries
  obtain ⟨hbare, hframe, _⟩ := hcarries
  have hplain : (framed raw → versionByte raw ≠ some frameVerV6) →
      ∀ held : Prop, (held ↔ held ∨ (Arrival.datagram raw src now).AnchorNames env id) := by
    intro hother held
    refine (or_iff_left ?_).symm
    rintro ⟨hframed, hversion, _⟩
    exact hother hframed hversion
  have hcls : IngressClass.transaction ≠ .privileged := by decide
  have hopen := route_open env fw raw src hcls
  revert hopen
  generalize route env fw raw src .transaction = taken
  intro hopen
  cases hopen with
  | record hframed =>
      rw [← hplain fun hyes => absurd hyes hframed]
      refine h.beef_iff trivial fun c hsome => ?_
      obtain ⟨frame, _, hbeef⟩ := Option.bind_eq_some_iff.mp hsome
      exact ⟨frame, false, hbeef⟩
  | bare hframed _ =>
      rw [← hplain fun hyes => absurd hyes hframed]
      exact h.bareTx_iff (fun hown => hbare ⟨hframed, hown⟩) src now st
  | anchor hframed hversion _ =>
      rw [Route.run, h.anchor_iff raw src now st]
      exact or_congr_right ⟨fun hnames => ⟨hframed, hversion, hnames⟩, fun hnames => hnames.2.2⟩
  | beef _ hversion =>
      rw [← hplain fun _ h6 => absurd (hversion.symm.trans h6) (by decide)]
      exact h.beef_iff trivial fun c hsome => ⟨raw, true, hsome⟩
  | bundle _ hversion _ =>
      rw [← hplain fun _ h6 => absurd (hversion.symm.trans h6) (by decide), Route.run,
        processBundle_stores]
  | frame _ hanchor _ =>
      rw [← hplain fun _ => hanchor]
      exact h.process_iff (fun f hdecode hown => hframe ⟨f, hdecode, hown⟩) src now st
  | refuse drop hanchor =>
      rw [← hplain fun _ => hanchor.resolve_right (by decide)]
      rfl

/-- One arrival that does not carry the transaction claims its id exactly when it
is an anchor naming it. -/
theorem OpenLane.dispatch_iff (h : OpenLane env fw ref id) {arrival : Arrival}
    (hcarries : ¬ arrival.Carries env id) (st : FwState) :
    (ref.keySpace, id) ∈ (arrival.dispatch env fw st).2.stores ref.store ↔
      (ref.keySpace, id) ∈ st.stores ref.store ∨ arrival.AnchorNames env id := by
  cases arrival with
  | bare tx src =>
      rw [show Arrival.dispatch env fw (.bare tx src) =
        (Entry.bareTx tx).run env fw src 0 from rfl, h.bareTx_iff hcarries]
      exact (or_iff_left fun hnames => hnames).symm
  | datagram raw src now =>
      rw [Arrival.dispatch, dispatchClass_eq_route]
      exact h.route_iff hcarries st

/-- Over a whole sequence without the transaction, its id is claimed exactly by
the anchors that name it. -/
theorem OpenLane.dispatchAll_iff (h : OpenLane env fw ref id) {arrivals : List Arrival}
    (hcarries : ∀ arrival ∈ arrivals, ¬ arrival.Carries env id) (st : FwState) :
    (ref.keySpace, id) ∈ (dispatchAll env fw arrivals st).stores ref.store ↔
      (ref.keySpace, id) ∈ st.stores ref.store ∨
        ∃ arrival ∈ arrivals, arrival.AnchorNames env id := by
  induction arrivals generalizing st with
  | nil => simp [dispatchAll]
  | cons arrival rest ih =>
      have hrest := ih (fun later hlater => hcarries later (List.mem_cons_of_mem _ hlater))
        (arrival.dispatch env fw st).2
      have hstep := h.dispatch_iff (hcarries arrival List.mem_cons_self) st
      rw [dispatchAll, List.foldl_cons]
      rw [dispatchAll] at hrest
      rw [hrest, hstep, List.exists_mem_cons_iff, or_assoc]

/-- A well-formed transaction reaches an entry point as a candidate for its id. -/
theorem Honest.candidate (hsub : SubmissionLaws env) {arrival : Arrival}
    (hhonest : Honest env fw id arrival) (st : FwState) :
    ∃ entry : Entry, ∃ src now c,
      arrival.dispatch env fw st = entry.run env fw src now st ∧ entry.NotLegacy env ∧
        entry.candidate env fw src now st = some c ∧ c.dedup = fw.txDedup ∧ c.key = id := by
  cases hhonest with
  | @bare tx framing src hgates hid =>
      obtain ⟨c, hc⟩ := bareTx_candidate hsub hgates hid
      exact ⟨.bareTx tx, src, 0, c, rfl, trivial, hc⟩
  | @submission tx framing src now hunframed hrecord hgates hid =>
      obtain ⟨c, hc⟩ := bareTx_candidate hsub hgates hid
      refine ⟨.bareTx tx, src, now, c, ?_, trivial, hc⟩
      rw [Arrival.dispatch, dispatchClass_eq_route, route, if_pos hunframed, if_neg hrecord,
        if_neg (by decide)]
      rfl
  | @frame raw f src now hframed hbyte hdecode hversion hunstamped hformat hone hown hid =>
      have hgates : txGates env fw raw fw.verifyPayloadHash = .ok f :=
        txGates_of_unstamped hdecode hversion hunstamped hformat (fun _ => hone) (fun _ => hown)
      refine ⟨.process raw, src, now, ⟨fw.txDedup, f.txID, f.txID, raw, f.payload, true⟩, ?_, ?_,
        ?_, rfl, hid⟩
      · rw [Arrival.dispatch, dispatchClass_eq_route, route, if_neg (not_not_intro hframed),
          hbyte]
        rfl
      · intro found hfound hlegacy
        obtain rfl := Option.some.inj (hdecode.symm.trans hfound)
        exact absurd (hversion.symm.trans hlegacy) (by decide)
      · simp only [Entry.candidate, txCandidate, hgates]

/-- A well-formed transaction wins its claim exactly when the claim is free. -/
theorem OpenLane.winsClaim_iff (h : OpenLane env fw ref id) {arrival : Arrival}
    (hhonest : Honest env fw id arrival) (st : FwState) :
    WinsClaim env fw ref id arrival st ↔ (ref.keySpace, id) ∉ st.stores ref.store := by
  obtain ⟨entry, src, now, c, hrun, hlegacy, hcandidate, hdedup, rfl⟩ :=
    hhonest.candidate h.submission st
  have houtcome : Outcome env fw entry src now st _ _ :=
    entry.outcome h.decode h.fragment h.submission h.store hlegacy
  rw [h.store] at hdedup
  constructor
  · exact WinsClaim.free
  · intro hfree
    refine ⟨?_, hfree, ?_⟩
    · intro frameType hsuppressed
      rw [hcandidate, ← hrun] at houtcome
      generalize arrival.dispatch env fw st = after at houtcome hsuppressed
      cases houtcome with
      | duplicate hdedup' hclaimed _ =>
          obtain rfl := Option.some.inj (hdedup.symm.trans hdedup')
          exact hfree hclaimed
      | burnt _ _ _ _ => cases hsuppressed
      | emitted _ _ _ _ _ => cases hsuppressed
    · rw [hrun, houtcome.mem_stores ref.store]
      exact Or.inr ⟨c, ref, hcandidate, hdedup, rfl, rfl⟩

/-- Whose claim it is: the first arrival of a well-formed transaction wins its
claim exactly when no anchor before it has named its id. -/
theorem firstArrival_wins_iff (h : OpenLane env fw ref id) {earlier : List Arrival}
    {arrival : Arrival} (hhonest : Honest env fw id arrival)
    (hfirst : ∀ before ∈ earlier, ¬ before.Carries env id) (st : FwState)
    (hfree : (ref.keySpace, id) ∉ st.stores ref.store) :
    WinsClaim env fw ref id arrival (dispatchAll env fw earlier st) ↔
      ∀ before ∈ earlier, ¬ before.AnchorNames env id := by
  rw [h.winsClaim_iff hhonest, h.dispatchAll_iff hfirst, not_or, and_iff_right hfree]
  simp only [not_exists, not_and]

end Runs

section Sample

open Reference

def firstID : Hash32 := doubleHash (sampleTx 0)

/-- The reference environment, with a SHA-256 that differs on the pairs of hashes
it would send to `firstID`: no BEEF claim key is that id. -/
def apartEnv : Env :=
  { Reference.env with
    sha256 := fun message =>
      if message.length = 64 ∧ Digest.sha256 message = firstID then zeroHash
      else Digest.sha256 message }

def verifyingForwarder : Forwarder :=
  { dedupForwarder with verifyPayloadHash := true }

theorem txID_sampleTx : apartEnv.txID (sampleTx 0) = some firstID := rfl

theorem txID_other : apartEnv.txID (sampleTx 1) ≠ some firstID := by
  decide +kernel

theorem beefClaimKey_apartEnv (contentID topicID : Hash32) :
    beefClaimKey apartEnv contentID topicID ≠ firstID := by
  have hzero : zeroHash ≠ firstID := by decide +kernel
  have hlength : (contentID.bytes ++ topicID.bytes).length = 64 := by
    rw [List.length_append, contentID.size, topicID.size]
  change (if _ then zeroHash else Digest.sha256 _) ≠ firstID
  split
  · exact hzero
  · rename_i hother
    exact fun hkey => hother ⟨hlength, hkey⟩

theorem decode_apartEnv (id : Hash32) (tx : Bytes) (hlength : tx.length < 2 ^ 32) :
    apartEnv.decode (sampleFrame id tx) = some ⟨frameVerV2, id, 0, zeroHash, tx⟩ :=
  decode_encodeFields _ hlength

theorem openLane_sample : OpenLane apartEnv verifyingForwarder ⟨0, "tx"⟩ firstID where
  decode := ⟨decodeLaws.decode_version, decodeLaws.decode_size, decodeLaws.decodeBlock_size,
    decodeLaws.decodeAnchor_size, decodeLaws.decodeSubtreeData_size, decodeLaws.decodeBEEF_size,
    decodeLaws.decodeBlock_msgType, decodeLaws.decodeSubtreeData_msgType,
    decodeLaws.decodeBEEF_deliverCount⟩
  fragment := ⟨fragmentLaws.encode, fragmentLaws.length, fragmentLaws.hashKey,
    fragmentLaws.seqNum, fragmentLaws.decode⟩
  submission := ⟨submissionLaws.reframe⟩
  store := rfl
  verify := rfl
  apart := beefClaimKey_apartEnv

/-- The sample transaction in a frame under its own id. -/
def firstArrival : Arrival :=
  .datagram (sampleFrame firstID (sampleTx 0)) (some (source 1)) 0

theorem honest_firstArrival : Honest apartEnv verifyingForwarder firstID firstArrival := by
  have hdecode := decode_apartEnv firstID (sampleTx 0) (by decide)
  have hone : apartEnv.txSize (sampleTx 0) = some (sampleTx 0).length := by decide +kernel
  have hformat : verifyingForwarder.requireEF = true → apartEnv.isEF (sampleTx 0) = true := by
    intro hrequired
    cases hrequired
  exact .frame (framed_encodeFields _ _) (versionByte_encodeFields _ _) hdecode rfl rfl hformat
    hone txID_sampleTx rfl

/-- A frame or an anchor carries no transaction but its payload. -/
theorem not_carries_encodeFields {version : UInt8} (hversion : version ≠ frameVerV1)
    {fields : Fields} (hpayload : fields.payload.length < 2 ^ 32) {id : Hash32}
    (hother : apartEnv.txID fields.payload ≠ some id) (src : Option NetAddr) (now : Time) :
    ¬ (Arrival.datagram (encodeFields version fields) src now).Carries apartEnv id := by
  rintro (⟨hframed, _⟩ | ⟨f, hdecode, hown⟩ | ⟨f, hdecode, hown⟩)
  · exact hframed (framed_encodeFields _ _)
  · change decode (encodeFields version fields) = some f at hdecode
    rw [decode, if_neg] at hdecode
    · obtain ⟨found, hfound, rfl⟩ := Option.map_eq_some_iff.mp hdecode
      obtain rfl := eq_of_decodeFields_encodeFields hpayload hfound
      exact hother hown
    · exact hversion
  · obtain ⟨found, hfound, rfl⟩ := Option.map_eq_some_iff.mp hdecode
    obtain rfl := eq_of_decodeFields_encodeFields hpayload hfound
    exact hother hown

theorem anchorNames_sampleAnchor (id : Hash32) (tx : Bytes) (hlength : tx.length < 2 ^ 32)
    (src : Option NetAddr) (now : Time) :
    (Arrival.datagram (sampleAnchor id tx) src now).AnchorNames apartEnv id :=
  ⟨framed_encodeFields _ _, versionByte_encodeFields _ _, ⟨frameVerV6, id, 0, zeroHash, tx⟩,
    decodeAnchor_sampleAnchor id hlength, rfl⟩

/-- A frame that forges the id of a later transaction is refused, and the
transaction wins its claim. -/
theorem firstArrival_wins_iff_forged :
    WinsClaim apartEnv verifyingForwarder ⟨0, "tx"⟩ firstID firstArrival
      (dispatchAll apartEnv verifyingForwarder
        [.datagram (sampleFrame firstID (sampleTx 1)) (some (source 2)) 0] state) := by
  refine (firstArrival_wins_iff openLane_sample honest_firstArrival ?_ state
    (Finset.notMem_empty _)).mpr ?_
  · intro before hbefore
    obtain rfl := List.mem_singleton.mp hbefore
    exact not_carries_encodeFields (by decide) (by decide) txID_other _ _
  · intro before hbefore
    obtain rfl := List.mem_singleton.mp hbefore
    rintro ⟨_, hversion, _⟩
    rw [sampleFrame, versionByte_encodeFields] at hversion
    cases hversion

/-- An anchor that names the transaction first, over another payload, takes its
claim: the transaction does not win it any more. -/
theorem firstArrival_squatted :
    ∃ squatter : Arrival,
      OpenLane apartEnv verifyingForwarder ⟨0, "tx"⟩ firstID ∧
      Honest apartEnv verifyingForwarder firstID firstArrival ∧
      ¬ squatter.Carries apartEnv firstID ∧ ("tx", firstID) ∉ state.stores 0 ∧
      ¬ WinsClaim apartEnv verifyingForwarder ⟨0, "tx"⟩ firstID firstArrival
        (dispatchAll apartEnv verifyingForwarder [squatter] state) := by
  have hcarries : ∀ src now, ¬ (Arrival.datagram (sampleAnchor firstID (sampleTx 1)) src now
      ).Carries apartEnv firstID :=
    not_carries_encodeFields (by decide) (by decide) txID_other
  have hnames : (Arrival.datagram (sampleAnchor firstID (sampleTx 1)) (some (source 2)) 0
      ).AnchorNames apartEnv firstID :=
    anchorNames_sampleAnchor firstID (sampleTx 1) (by decide) _ _
  refine ⟨.datagram (sampleAnchor firstID (sampleTx 1)) (some (source 2)) 0, openLane_sample,
    honest_firstArrival, hcarries _ _, Finset.notMem_empty _, ?_⟩
  rw [openLane_sample.winsClaim_iff honest_firstArrival, not_not,
    openLane_sample.dispatchAll_iff ?_]
  · exact Or.inr ⟨_, List.mem_singleton_self _, hnames⟩
  · intro before hbefore
    obtain rfl := List.mem_singleton.mp hbefore
    exact hcarries _ _

end Sample

end ShardProxy
