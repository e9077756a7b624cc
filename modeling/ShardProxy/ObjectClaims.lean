/-
Whose claim a BEEF object is.  The object plane computes the ContentID behind
its claim key, so a claim made there is made by someone who holds the object.
The other planes claim 32-byte identifiers as their senders wrote them, and
unless the object plane has a store or a prefix of its own these are claims in
the same space.
-/
import ShardProxy.CoalescedBatch
import ShardProxy.Squatting

namespace ShardProxy

open ByteField

section Objects

variable (env : Env) (fw : Forwarder)

def objectKey (payload : Bytes) (topic : Hash32) : Hash32 :=
  beefClaimKey env (env.contentID payload) topic

/-- The datagram carries a payload under a topic: it is that record, or a frame
around it. -/
def CarriesObject (raw payload : Bytes) (topic : Hash32) : Prop :=
  (¬ framed raw ∧ raw = payload ∧ ∃ record first rest,
    env.decodeBEEFRecord raw = some (record, raw.length) ∧ record.topics = first :: rest ∧
      env.topicID first = topic) ∨
  (framed raw ∧ ∃ bf, env.decodeBEEF raw = some bf ∧ bf.payload = payload ∧ bf.topicID = topic)

/-- The entry point claims an identifier of the transaction plane. -/
def Entry.NamesID (id : Hash32) : Entry → Prop
  | .process raw => ∃ f, txGates env fw raw fw.verifyPayloadHash = .ok f ∧
      f.version = frameVerV2 ∧ f.txID = id
  | .bareTx tx => ∃ framing f, bareTxGates env fw tx = .ok framing ∧
      txGates env fw framing false = .ok f ∧ f.txID = id
  | .block raw => ∃ bf, blockGates env fw raw = .ok bf ∧ bf.contentID = id
  | .anchor raw => ∃ f, anchorGates env raw = .ok f ∧ f.txID = id
  | .subtreeData raw => ∃ sf, subtreeGates env fw raw = .ok sf ∧ sf.subtreeID = id
  | _ => False

/-- The datagram passes the checks of the transaction plane under an identifier. -/
def Received.NamesID (id : Hash32) (d : Received) : Prop :=
  ∃ entry, route env fw d.raw (some d.src) d.cls = .entry entry ∧ entry.NamesID env fw id

/-- The BEEF frame a datagram submits, where it is routed, and whether its
ContentID is checked. -/
inductive Received.Submits (d : Received) : Entry → Bytes → Bool → Prop where
  | record {frame : Bytes} (hframed : ¬ framed d.raw)
      (htag : 2 ≤ d.raw.length ∧ uint16At d.raw 0 = beefRecordTag)
      (hprepared : (prepareBEEF env fw d.raw (some d.src)).frame = some frame) :
      d.Submits (.dispatchBEEF (prepareBEEF env fw d.raw (some d.src))) frame false
  | framed (hframed : framed d.raw) (hversion : versionByte d.raw = some frameVerV9) :
      d.Submits (.beef d.raw) d.raw true

/-- A submission of a payload under a topic that passes the checks and is within
the budgets. -/
def ValidSubmission (d : Received) (payload : Bytes) (topic : Hash32) (st : FwState) : Prop :=
  ∃ entry frame checkContentID plane bf topics, d.Submits env fw entry frame checkContentID ∧
    beefGates env fw frame (some d.src) = .ok (plane, bf, topics) ∧
    (st.beefLimit.allow env (some d.src) frame.length d.now).1 = .allow ∧
    contentGate env bf (some d.src) checkContentID = .ok () ∧
    bf.payload = payload ∧ bf.topicID = topic

/-- The datagram is not suppressed and takes a claim nobody held before. -/
structure WinsObject (ref : DedupRef) (key : Hash32) (d : Received) (st : FwState) : Prop where
  admitted : ∀ frameType, (d.dispatch env fw st).1 ≠ .error (.deduped frameType)
  free : (ref.keySpace, key) ∉ st.stores ref.store
  taken : (ref.keySpace, key) ∈ (d.dispatch env fw st).2.stores ref.store

end Objects

section Stores

variable {env : Env} {fw : Forwarder} {src : Option NetAddr} {now : Time} {st : FwState}

theorem Outgoing.send_stores (o : Outgoing fw) (st : FwState) :
    (o.send env st).2.stores = st.stores := by
  rw [Outgoing.send]
  cases o.split with
  | some plan =>
      simp only [fragmentWith]
      split <;> rfl
  | none =>
      cases o.flow with
      | none => rfl
      | some flow =>
          simp only [emit_bind_apply, enqueue_apply]

theorem emitTx_stores (raw : Bytes) (f : Frame) (src : Option NetAddr) (st : FwState) :
    (emitTx env fw raw f src st).2.stores = st.stores := by
  by_cases hversion : f.version = frameVerV2
  · by_cases hwaits : Waits env fw st f src
    · obtain ⟨s, rfl⟩ := Option.isSome_iff_exists.mp hwaits.1
      rw [emitTx_of_waits env fw raw hwaits]
    · rw [emitTx_of_not_waits env fw hversion raw hwaits, Outgoing.send_stores]
  · rw [emitTx_of_legacy env fw hversion, Outgoing.send_stores]

/-- Without a transaction store a checked frame is sent and claims nothing. -/
theorem stores_of_unclaimed (hstore : fw.txDedup = none) {A : Type} (check : Except Drop A)
    (key : A → Hash32) (frameType : String) {emit : A → Fw Unit}
    (hemit : ∀ a st, (emit a st).2.stores = st.stores) (st : FwState) :
    ((Fw.gate check >>= fun a => claimIngress fw (key a) frameType >>= fun _ => emit a)
      st).2.stores = st.stores := by
  cases check with
  | error drop => rw [Fw.gate_bind_error rfl]
  | ok a =>
      rw [Fw.gate_bind_ok rfl, claimIngress, hstore]
      exact hemit a st

theorem process_stores_of_unclaimed (hstore : fw.txDedup = none) (raw : Bytes) (verify : Bool) :
    (process env fw raw src verify st).2.stores = st.stores := by
  cases hgates : txGates env fw raw verify with
  | error drop => rw [process, Fw.gate_bind_error hgates]
  | ok f =>
      rw [process, Fw.gate_bind_ok hgates]
      by_cases hversion : f.version = frameVerV2
      · simp only [hversion, ↓reduceIte, claimIngress, hstore]
        exact emitTx_stores raw f src st
      · simp only [hversion, ↓reduceIte]
        exact emitTx_stores raw f src st

/-- The entry points of the transaction plane. -/
def Entry.TxPlane : Entry → Prop
  | .beef _ | .dispatchBEEF _ | .admitBEEF _ => False
  | _ => True

/-- A candidate of the transaction plane is the identifier it is named by. -/
theorem Entry.candidate_tx (hdec : DecodeLaws env) {entry : Entry} (hplane : entry.TxPlane)
    (hlegacy : entry.NotLegacy env) {c : Candidate}
    (hsome : entry.candidate env fw src now st = some c) :
    c.dedup = fw.txDedup ∧ entry.NamesID env fw c.key := by
  cases entry with
  | process raw =>
      obtain ⟨f, hgates, hkey, hdedup⟩ := txCandidate_key hsome
      have hdecode := txGates_ok hgates
      exact ⟨hdedup, f, hgates,
        (hdec.decode_version hdecode).resolve_left (hlegacy f hdecode), hkey.symm⟩
  | bareTx tx =>
      rw [Entry.candidate] at hsome
      split at hsome
      · cases hsome
      · rename_i framing hbare
        obtain ⟨f, hgates, hkey, hdedup⟩ := txCandidate_key hsome
        exact ⟨hdedup, framing, f, hbare, hgates, hkey.symm⟩
  | block raw =>
      rw [Entry.candidate] at hsome
      split at hsome
      · cases hsome
      · obtain rfl := Option.some.inj hsome
        exact ⟨rfl, _, ‹_›, rfl⟩
  | anchor raw =>
      rw [Entry.candidate] at hsome
      split at hsome
      · cases hsome
      · obtain rfl := Option.some.inj hsome
        exact ⟨rfl, _, ‹_›, rfl⟩
  | subtreeData raw =>
      rw [Entry.candidate] at hsome
      split at hsome
      · cases hsome
      · obtain rfl := Option.some.inj hsome
        exact ⟨rfl, _, ‹_›, rfl⟩
  | beef raw | dispatchBEEF p | admitBEEF p => exact absurd hplane id

/-- What is named is claimed. -/
theorem Entry.candidate_of_names {entry : Entry} {id : Hash32}
    (hnames : entry.NamesID env fw id) :
    ∃ c, entry.candidate env fw src now st = some c ∧ c.dedup = fw.txDedup ∧ c.key = id := by
  cases entry with
  | process raw =>
      obtain ⟨f, hgates, _, rfl⟩ := hnames
      refine ⟨⟨fw.txDedup, f.txID, f.txID, raw, f.payload, true⟩, ?_, rfl, rfl⟩
      simp only [Entry.candidate, txCandidate, hgates]
  | bareTx tx =>
      obtain ⟨framing, f, hbare, hgates, rfl⟩ := hnames
      refine ⟨⟨fw.txDedup, f.txID, f.txID, framing, f.payload, true⟩, ?_, rfl, rfl⟩
      simp only [Entry.candidate, hbare, txCandidate, hgates]
  | block raw =>
      obtain ⟨bf, hgates, rfl⟩ := hnames
      exact ⟨_, by simp only [Entry.candidate, hgates]; rfl, rfl, rfl⟩
  | anchor raw =>
      obtain ⟨f, hgates, rfl⟩ := hnames
      exact ⟨_, by simp only [Entry.candidate, hgates]; rfl, rfl, rfl⟩
  | subtreeData raw =>
      obtain ⟨sf, hgates, rfl⟩ := hnames
      exact ⟨_, by simp only [Entry.candidate, hgates]; rfl, rfl, rfl⟩
  | beef raw | dispatchBEEF p | admitBEEF p => exact hnames.elim

/-- Without a store of its own the transaction plane leaves the claims alone. -/
theorem Entry.stores_of_unclaimed (hstore : fw.txDedup = none) {entry : Entry}
    (hplane : entry.TxPlane) : (entry.run env fw src now st).2.stores = st.stores := by
  cases entry with
  | process raw => exact process_stores_of_unclaimed hstore raw _
  | bareTx tx =>
      rw [Entry.run, dispatchBareTx]
      cases hgates : bareTxGates env fw tx with
      | error drop => rw [Fw.gate_bind_error rfl]
      | ok framing =>
          rw [Fw.gate_bind_ok rfl]
          exact process_stores_of_unclaimed hstore framing false
  | block raw =>
      apply ShardProxy.stores_of_unclaimed hstore
      intro bf st
      rw [emitBlock_eq, Outgoing.send_stores]
  | anchor raw =>
      apply ShardProxy.stores_of_unclaimed hstore
      intro f st
      rw [emitAnchor_eq, Outgoing.send_stores]
  | subtreeData raw =>
      apply ShardProxy.stores_of_unclaimed hstore
      intro sf st
      rw [emitSubtreeData_eq, Outgoing.send_stores]
  | beef raw | dispatchBEEF p | admitBEEF p => exact absurd hplane id

theorem Entry.beef_outcome (hdec : DecodeLaws env) (hfrag : FragmentLaws env) {ref : DedupRef}
    (hstore : fw.beefDedup.or fw.txDedup = some ref) {entry : Entry} (hplane : ¬ entry.TxPlane) :
    Outcome env fw entry src now st (entry.candidate env fw src now st)
      (entry.run env fw src now st) := by
  cases entry with
  | beef raw => exact processBEEF_outcome hdec hfrag hstore raw true
  | admitBEEF p => exact admitBEEF_outcome hdec hstore p
  | dispatchBEEF p => exact dispatchBEEF_outcome hdec hfrag hstore p
  | process raw | bareTx tx | block raw | anchor raw | subtreeData raw =>
      exact absurd trivial hplane

/-- An entry point adds the key of its candidate to the claims, whatever stores
are attached. -/
theorem Entry.mem_stores (hdec : DecodeLaws env) (hfrag : FragmentLaws env)
    (hsub : SubmissionLaws env) {ref : DedupRef} (hstore : fw.beefDedup.or fw.txDedup = some ref)
    (entry : Entry) (hlegacy : entry.NotLegacy env) (store : Nat) (claim : String × Hash32) :
    claim ∈ (entry.run env fw src now st).2.stores store ↔
      claim ∈ st.stores store ∨
        ∃ c own, entry.candidate env fw src now st = some c ∧ c.dedup = some own ∧
          own.store = store ∧ claim = (own.keySpace, c.key) := by
  by_cases hplane : entry.TxPlane
  · cases htx : fw.txDedup with
    | some own => exact (entry.outcome hdec hfrag hsub htx hlegacy).mem_stores store claim
    | none =>
        rw [Entry.stores_of_unclaimed htx hplane]
        refine (or_iff_left ?_).symm
        rintro ⟨c, own, hsome, hdedup, _⟩
        have hnone := (Entry.candidate_tx hdec hplane hlegacy hsome).1.trans htx
        cases hnone.symm.trans hdedup
  · exact (Entry.beef_outcome hdec hfrag hstore hplane).mem_stores store claim

end Stores

section Keys

variable {env : Env} {fw : Forwarder} {st : FwState} {d : Received}

/-- What is submitted is carried, and its claim key is computed from it. -/
theorem Received.Submits.key (hrec : RecordLaws env) {entry : Entry} {frame : Bytes}
    {checkContentID : Bool} (hsubmits : d.Submits env fw entry frame checkContentID)
    {plane : PlaneEngine} {bf : BEEFFrame} {topics : Nat}
    (hgates : beefGates env fw frame (some d.src) = .ok (plane, bf, topics))
    (hcontent : contentGate env bf (some d.src) checkContentID = .ok ()) :
    CarriesObject env d.raw bf.payload bf.topicID ∧
      beefClaimKey env bf.contentID bf.topicID = objectKey env bf.payload bf.topicID := by
  have hdecode := beefGates_ok hgates
  cases hsubmits with
  | record hframed htag hprepared =>
      obtain ⟨deliver, hbuilt⟩ := frame_of_prepared hprepared
      obtain ⟨record, first, rest, hrecord, htopics, hframe⟩ := hrec.framed hbuilt
      obtain rfl := Option.some.inj (hdecode.symm.trans hframe)
      exact ⟨Or.inl ⟨hframed, rfl, record, first, rest, hrecord, htopics, rfl⟩, rfl⟩
  | framed hframed hversion =>
      refine ⟨Or.inr ⟨hframed, bf, hdecode, rfl, rfl⟩, ?_⟩
      have hown : bf.contentID = env.contentID bf.payload := by
        by_contra hforged
        rw [contentGate, if_pos ⟨rfl, rfl, hforged⟩] at hcontent
        cases hcontent
      rw [objectKey, hown]

theorem contentGate_deliver (bf : BEEFFrame) (deliver : UInt8) (src : Option NetAddr)
    (checkContentID : Bool) :
    contentGate env { bf with deliverCount := deliver } src checkContentID =
      contentGate env bf src checkContentID := rfl

theorem Received.Submits.candidate_eq {entry : Entry} {frame : Bytes} {checkContentID : Bool}
    (hsubmits : d.Submits env fw entry frame checkContentID) :
    entry.candidate env fw (some d.src) d.now st =
      beefCandidate env fw frame (some d.src) d.now checkContentID st := by
  cases hsubmits with
  | record hframed htag hprepared => rw [Entry.candidate, hprepared, Option.bind_some]
  | framed hframed hversion => rfl

theorem Received.Submits.route_eq {entry : Entry} {frame : Bytes} {checkContentID : Bool}
    (hsubmits : d.Submits env fw entry frame checkContentID) :
    route env fw d.raw (some d.src) d.cls = .entry entry := by
  cases hsubmits with
  | record hframed htag hprepared => rw [route, if_pos hframed, if_pos htag]
  | framed hframed hversion =>
      rw [route, if_neg (not_not_intro hframed), hversion]
      rfl

/-- A submitted frame is a candidate exactly when it is valid. -/
theorem beefCandidate_some {frame : Bytes} {src : NetAddr} {now : Time} {checkContentID : Bool}
    {c : Candidate}
    (hsome : beefCandidate env fw frame (some src) now checkContentID st = some c) :
    ∃ plane bf topics, beefGates env fw frame (some src) = .ok (plane, bf, topics) ∧
      contentGate env bf (some src) checkContentID = .ok () ∧
      c.dedup = fw.beefDedup.or fw.txDedup ∧
      c.key = beefClaimKey env bf.contentID bf.topicID := by
  rw [beefCandidate] at hsome
  split at hsome
  · cases hsome
  · rename_i plane bf topics hgates
    simp only [setDeliverCount] at hsome
    split at hsome
    · rename_i hcontent
      obtain rfl := Option.some.inj hsome
      exact ⟨plane, bf, topics, hgates, hcontent, rfl, rfl⟩
    · cases hsome

theorem ValidSubmission.candidate (hrec : RecordLaws env) {payload : Bytes} {topic : Hash32}
    (hvalid : ValidSubmission env fw d payload topic st) :
    ∃ entry c, route env fw d.raw (some d.src) d.cls = .entry entry ∧ ¬ entry.TxPlane ∧
      entry.candidate env fw (some d.src) d.now st = some c ∧
      c.dedup = fw.beefDedup.or fw.txDedup ∧ c.key = objectKey env payload topic := by
  obtain ⟨entry, frame, checkContentID, plane, bf, topics, hsubmits, hgates, hbudget, hcontent,
    rfl, rfl⟩ := hvalid
  have hkey := (hsubmits.key hrec hgates hcontent).2
  refine ⟨entry, ⟨fw.beefDedup.or fw.txDedup, beefClaimKey env bf.contentID bf.topicID,
    bf.contentID, frame.set 7 (UInt8.ofNat (beefDeliverCount fw (some d.src) topics)),
    bf.payload, true⟩, hsubmits.route_eq, ?_, ?_, rfl, hkey⟩
  · cases hsubmits <;> exact id
  · rw [hsubmits.candidate_eq, beefCandidate, hgates]
    simp only [setDeliverCount, List.length_set, hbudget, contentGate_deliver, hcontent]

end Keys

section Runs

variable {env : Env} {fw : Forwarder} {ref : DedupRef} {payload : Bytes} {topic : Hash32}

/-- What the results on the claims of objects assume of the codecs. -/
structure ObjectLaws (env : Env) : Prop where
  dec : DecodeLaws env
  frag : FragmentLaws env
  sub : SubmissionLaws env
  record : RecordLaws env

/-- The object is apart from the others a datagram may carry: no two of them have
one claim key. -/
def ApartFrom (env : Env) (payload : Bytes) (topic : Hash32) (raw : Bytes) : Prop :=
  ∀ other otherTopic, CarriesObject env raw other otherTopic →
    objectKey env other otherTopic = objectKey env payload topic →
      other = payload ∧ otherTopic = topic

/-- Where the object plane's entry points are reached from. -/
theorem submits_of_route {d : Received} {entry : Entry}
    (hroute : route env fw d.raw (some d.src) d.cls = .entry entry) (hplane : ¬ entry.TxPlane)
    {st : FwState} {c : Candidate}
    (hsome : entry.candidate env fw (some d.src) d.now st = some c) :
    ∃ frame checkContentID, d.Submits env fw entry frame checkContentID := by
  unfold route at hroute
  by_cases hframed : framed d.raw
  · rw [if_neg (not_not_intro hframed)] at hroute
    split_ifs at hroute
    all_goals cases hroute
    all_goals first
      | exact absurd trivial hplane
      | exact ⟨_, _, .framed hframed ‹_›⟩
  · rw [if_pos hframed] at hroute
    split_ifs at hroute with htag
    all_goals cases hroute
    · obtain ⟨frame, hprepared, _⟩ := Option.bind_eq_some_iff.mp hsome
      exact ⟨frame, false, .record hframed htag hprepared⟩
    · exact absurd trivial hplane

/-- A claim of another object's key is made by an identifier, in shared claims. -/
theorem claimed_iff_names (hlaws : ObjectLaws env) {d : Received}
    (hcarries : ¬ CarriesObject env d.raw payload topic)
    (hapart : ApartFrom env payload topic d.raw) {entry : Entry}
    (hroute : route env fw d.raw (some d.src) d.cls = .entry entry)
    (hlegacy : entry.NotLegacy env) (st : FwState) :
    (∃ c own, entry.candidate env fw (some d.src) d.now st = some c ∧ c.dedup = some own ∧
        own.store = ref.store ∧ (ref.keySpace, objectKey env payload topic) =
          (own.keySpace, c.key)) ↔
      fw.txDedup = some ref ∧ d.NamesID env fw (objectKey env payload topic) := by
  constructor
  · rintro ⟨c, own, hsome, hdedup, hnumber, hclaim⟩
    obtain ⟨hspace, hkey⟩ := Prod.mk.inj hclaim
    obtain rfl : own = ref := by
      cases own
      cases ref
      simp only at hnumber hspace
      rw [hnumber, hspace]
    by_cases hplane : entry.TxPlane
    · obtain ⟨hown, hnames⟩ := Entry.candidate_tx hlaws.dec hplane hlegacy hsome
      rw [← hkey] at hnames
      exact ⟨hown.symm.trans hdedup, entry, hroute, hnames⟩
    · obtain ⟨frame, checkContentID, hsubmits⟩ := submits_of_route hroute hplane hsome
      rw [hsubmits.candidate_eq] at hsome
      obtain ⟨plane, bf, topics, hgates, hcontent, _, hown⟩ := beefCandidate_some hsome
      obtain ⟨hcarried, hobject⟩ := hsubmits.key hlaws.record hgates hcontent
      obtain ⟨rfl, rfl⟩ := hapart _ _ hcarried (hobject.symm.trans (hown.symm.trans hkey.symm))
      exact absurd hcarried hcarries
  · rintro ⟨hshared, found, hfound, hnames⟩
    obtain rfl : entry = found := by
      rw [hroute] at hfound
      exact Route.entry.inj hfound
    obtain ⟨c, hsome, hdedup, hkey⟩ := Entry.candidate_of_names hnames
    exact ⟨c, ref, hsome, hdedup.trans hshared, rfl, by rw [hkey]⟩

/-- One datagram that does not carry the object claims its key exactly when the
planes share their claims and it names the key as an identifier. -/
theorem dispatch_claims_iff (hlaws : ObjectLaws env)
    (hstore : fw.beefDedup.or fw.txDedup = some ref) {d : Received}
    (hcarries : ¬ CarriesObject env d.raw payload topic)
    (hapart : ApartFrom env payload topic d.raw) (st : FwState) :
    (ref.keySpace, objectKey env payload topic) ∈ (d.dispatch env fw st).2.stores ref.store ↔
      (ref.keySpace, objectKey env payload topic) ∈ st.stores ref.store ∨
        fw.txDedup = some ref ∧ d.NamesID env fw (objectKey env payload topic) := by
  have hnobody : (∀ entry, route env fw d.raw (some d.src) d.cls = .entry entry →
      ¬ entry.NamesID env fw (objectKey env payload topic)) → ∀ held : Prop,
        (held ↔ held ∨ fw.txDedup = some ref ∧
          d.NamesID env fw (objectKey env payload topic)) := by
    intro hnone held
    refine (or_iff_left ?_).symm
    rintro ⟨_, entry, hroute, hnames⟩
    exact hnone entry hroute hnames
  rw [Received.dispatch, dispatchClass_eq_route]
  cases hroute : route env fw d.raw (some d.src) d.cls with
  | bundle =>
      rw [Route.run, processBundle_stores]
      exact hnobody (fun entry hentry => by cases hroute.symm.trans hentry) _
  | refuse drop =>
      rw [Route.run, Fw.fail_apply]
      exact hnobody (fun entry hentry => by cases hroute.symm.trans hentry) _
  | entry point =>
      rw [Route.run]
      by_cases hlegacy : point.NotLegacy env
      · rw [Entry.mem_stores hlaws.dec hlaws.frag hlaws.sub hstore point hlegacy,
          claimed_iff_names hlaws hcarries hapart hroute hlegacy]
      · -- a V1 frame claims nothing and has no identifier to name
        cases point with
        | process raw =>
            simp only [Entry.NotLegacy, not_forall, not_not] at hlegacy
            obtain ⟨f, hdecode, hversion⟩ := hlegacy
            rw [Entry.run, processFrame, process_legacy_stores hdecode hversion]
            refine hnobody ?_ _
            intro entry hentry
            rw [hroute] at hentry
            obtain rfl := Route.entry.inj hentry
            rintro ⟨found, hgates, hcurrent, _⟩
            obtain rfl := Option.some.inj (hdecode.symm.trans (txGates_ok hgates))
            exact absurd (hversion.symm.trans hcurrent) (by decide)
        | bareTx tx | block raw | anchor raw | subtreeData raw | beef raw | dispatchBEEF p
        | admitBEEF p =>
            exact absurd trivial hlegacy

/-- Over a whole sequence without the object, its key is claimed exactly by the
identifiers that name it, where the planes share their claims. -/
theorem receive_claims_iff (hlaws : ObjectLaws env)
    (hstore : fw.beefDedup.or fw.txDedup = some ref) {earlier : List Received}
    (hcarries : ∀ d ∈ earlier, ¬ CarriesObject env d.raw payload topic)
    (hapart : ∀ d ∈ earlier, ApartFrom env payload topic d.raw) (st : FwState) :
    (ref.keySpace, objectKey env payload topic) ∈ (receive env fw earlier st).stores ref.store ↔
      (ref.keySpace, objectKey env payload topic) ∈ st.stores ref.store ∨
        fw.txDedup = some ref ∧ ∃ d ∈ earlier, d.NamesID env fw (objectKey env payload topic) := by
  induction earlier generalizing st with
  | nil => simp [receive]
  | cons d rest ih =>
      have hstep := dispatch_claims_iff hlaws hstore (hcarries d List.mem_cons_self)
        (hapart d List.mem_cons_self) st
      have hrest := ih (fun later hlater => hcarries later (List.mem_cons_of_mem d hlater))
        (fun later hlater => hapart later (List.mem_cons_of_mem d hlater))
        (d.dispatch env fw st).2
      rw [receive, hrest, hstep, List.exists_mem_cons_iff, or_assoc, ← and_or_left]

/-- A valid submission wins its claim exactly when the claim is free. -/
theorem ValidSubmission.wins_iff (hlaws : ObjectLaws env)
    (hstore : fw.beefDedup.or fw.txDedup = some ref) {d : Received} {st : FwState}
    (hvalid : ValidSubmission env fw d payload topic st) :
    WinsObject env fw ref (objectKey env payload topic) d st ↔
      (ref.keySpace, objectKey env payload topic) ∉ st.stores ref.store := by
  obtain ⟨entry, c, hroute, hplane, hcandidate, hdedup, hkey⟩ := hvalid.candidate hlaws.record
  have hrun : d.dispatch env fw st = entry.run env fw (some d.src) d.now st := by
    rw [Received.dispatch, dispatchClass_eq_route, hroute]
    rfl
  have houtcome : Outcome env fw entry (some d.src) d.now st _ _ :=
    Entry.beef_outcome hlaws.dec hlaws.frag hstore hplane
  rw [hstore] at hdedup
  rw [hcandidate, ← hrun] at houtcome
  constructor
  · exact WinsObject.free
  · intro hfree
    refine ⟨?_, hfree, ?_⟩
    · intro frameType hsuppressed
      generalize d.dispatch env fw st = after at houtcome hsuppressed
      cases houtcome with
      | duplicate hdedup' hclaimed _ =>
          obtain rfl := Option.some.inj (hdedup.symm.trans hdedup')
          rw [hkey] at hclaimed
          exact hfree hclaimed
      | burnt _ _ _ _ | emitted _ _ _ _ _ => cases hsuppressed
    · rw [houtcome.mem_stores ref.store]
      exact Or.inr ⟨c, ref, rfl, hdedup, rfl, by rw [hkey]⟩

/-- The first valid submission of an object wins its claim exactly when the object
plane has a claim space of its own, or no datagram before it was let in on the
transaction plane under the object's claim key. -/
theorem object_wins_iff (hlaws : ObjectLaws env)
    (hstore : fw.beefDedup.or fw.txDedup = some ref) {earlier : List Received} {d : Received}
    {st : FwState} (hfree : (ref.keySpace, objectKey env payload topic) ∉ st.stores ref.store)
    (hfirst : ∀ before ∈ earlier, ¬ CarriesObject env before.raw payload topic)
    (hapart : ∀ before ∈ earlier, ApartFrom env payload topic before.raw)
    (hvalid : ValidSubmission env fw d payload topic (receive env fw earlier st)) :
    WinsObject env fw ref (objectKey env payload topic) d (receive env fw earlier st) ↔
      (fw.txDedup = some ref →
        ∀ before ∈ earlier, ¬ before.NamesID env fw (objectKey env payload topic)) := by
  rw [hvalid.wins_iff hlaws hstore, receive_claims_iff hlaws hstore hfirst hapart, not_or,
    and_iff_right hfree]
  simp only [not_and, not_exists]

/-- In shared claims an identifier that names the key of an object takes its
claim. -/
theorem not_wins_of_names (hlaws : ObjectLaws env) (hshared : fw.txDedup = some ref)
    (hstore : fw.beefDedup.or fw.txDedup = some ref) {squatter d : Received}
    (hcarries : ∀ other otherTopic, ¬ CarriesObject env squatter.raw other otherTopic)
    (hnames : squatter.NamesID env fw (objectKey env payload topic)) (st : FwState) :
    ¬ WinsObject env fw ref (objectKey env payload topic) d (receive env fw [squatter] st) := by
  intro hwins
  apply hwins.free
  apply (receive_claims_iff hlaws hstore ?_ ?_ st).mpr
  · exact Or.inr ⟨hshared, squatter, List.mem_singleton_self squatter, hnames⟩
  · intro before hbefore
    rw [List.mem_singleton.mp hbefore]
    exact hcarries payload topic
  · intro before hbefore other otherTopic hcarried
    rw [List.mem_singleton.mp hbefore] at hcarried
    exact absurd hcarried (hcarries other otherTopic)

end Runs

section Sample

open Reference

theorem Reference.objectLaws : ObjectLaws Reference.env :=
  ⟨decodeLaws, fragmentLaws, submissionLaws, recordLaws⟩

/-- The sample record, its topic, and its submission. -/
def heldRecord : Bytes := sampleRecord (sampleObject 1)

def heldTopic : Hash32 := Reference.env.topicID [0x74, 0x6D]

def heldKey : Hash32 := objectKey Reference.env heldRecord heldTopic

def heldFrame : Bytes := (Reference.env.beefMulticastRecord heldRecord 1).getD []

theorem heldFrame_built : Reference.env.beefMulticastRecord heldRecord 1 = some heldFrame :=
  (Option.getD_of_ne_none (by decide +kernel) _).symm

def heldSubmission : Received := ⟨heldRecord, source 1, 0, .beef⟩

/-- A transaction frame whose sender wrote the object's claim key for a TxID. -/
def squattingFrame : Received := ⟨sampleFrame heldKey (sampleTx 0), source 2, 0, .transaction⟩

/-- The object plane with a prefix of its own. -/
def splitForwarder : Forwarder :=
  { beefForwarder with beefDedup := some ⟨0, "beef"⟩ }

theorem validSubmission_held {fw : Forwarder} {st : FwState}
    (hprepared : (prepareBEEF Reference.env fw heldRecord (some (source 1))).frame =
      some heldFrame)
    (hgates : (beefGates Reference.env fw heldFrame (some (source 1))).isOk = true)
    (hbudget : (st.beefLimit.allow Reference.env (some (source 1)) heldFrame.length 0).1 =
      .allow) :
    ValidSubmission Reference.env fw heldSubmission heldRecord heldTopic st := by
  cases hpassed : beefGates Reference.env fw heldFrame (some (source 1)) with
  | error drop =>
      rw [hpassed] at hgates
      cases hgates
  | ok passed =>
      obtain ⟨plane, bf, topics⟩ := passed
      obtain ⟨record, first, rest, hrecord, htopics, hframe⟩ := recordLaws.framed heldFrame_built
      obtain rfl := Option.some.inj ((beefGates_ok hpassed).symm.trans hframe)
      have hdecoded : Reference.env.decodeBEEFRecord heldRecord =
          some (⟨[[0x74, 0x6D]], sampleObject 1⟩, heldRecord.length) := by
        decide +kernel
      have hsame := (Prod.mk.inj (Option.some.inj (hrecord.symm.trans hdecoded))).1
      have hfirst : first = [0x74, 0x6D] := by
        rw [hsame] at htopics
        exact (List.cons.inj htopics).1.symm
      refine ⟨_, heldFrame, false, plane, _, topics,
        .record (by decide +kernel) (by decide +kernel) hprepared, hpassed, hbudget, rfl, rfl, ?_⟩
      rw [hfirst]
      rfl

theorem not_carries_squattingFrame (payload : Bytes) (topic : Hash32) :
    ¬ CarriesObject Reference.env squattingFrame.raw payload topic := by
  have hframed : framed squattingFrame.raw := framed_encodeFields _ _
  have hversion : versionByte squattingFrame.raw = some frameVerV2 := versionByte_encodeFields _ _
  rintro (⟨hunframed, _⟩ | ⟨_, bf, hdecode, _⟩)
  · exact hunframed hframed
  · have hbyte := seqNumLaws.decodeBEEF_version hdecode
    rw [byteAt_of_versionByte hversion] at hbyte
    exact absurd hbyte (by decide)

theorem namesID_squattingFrame : squattingFrame.NamesID Reference.env beefForwarder heldKey := by
  have hframed : framed squattingFrame.raw := framed_encodeFields _ _
  have hversion : versionByte squattingFrame.raw = some frameVerV2 := versionByte_encodeFields _ _
  refine ⟨.process squattingFrame.raw, ?_, ⟨frameVerV2, heldKey, 0, zeroHash, sampleTx 0⟩, ?_,
    rfl, rfl⟩
  · rw [route, if_neg (not_not_intro hframed), hversion]
    rfl
  · apply txGates_of_unstamped (decode_sampleFrame heldKey (by decide)) rfl rfl
    · exact fun hrequired => absurd hrequired Bool.false_ne_true
    · exact fun hverified => absurd hverified Bool.false_ne_true
    · exact fun hverified => absurd hverified Bool.false_ne_true

/-- With a prefix of its own the object plane takes the submission. -/
theorem object_wins_iff_sample :
    WinsObject Reference.env splitForwarder ⟨0, "beef"⟩ heldKey heldSubmission
      (receive Reference.env splitForwarder [squattingFrame] state) := by
  refine (object_wins_iff objectLaws rfl (Finset.notMem_empty _) ?_ ?_ ?_).mpr ?_
  · intro before hbefore
    obtain rfl := List.mem_singleton.mp hbefore
    exact not_carries_squattingFrame _ _
  · intro before hbefore
    obtain rfl := List.mem_singleton.mp hbefore
    exact fun other topic hcarries => absurd hcarries (not_carries_squattingFrame other topic)
  · apply validSubmission_held
    · rfl
    · decide +kernel
    · decide +kernel
  · intro hshared
    exact absurd hshared (by decide)

/-- In the default wiring a transaction frame that names the claim key first, from
a sender who does not hold the object, has its submission suppressed. -/
theorem squattedObject_suppressed :
    ValidSubmission Reference.env beefForwarder heldSubmission heldRecord heldTopic
        (receive Reference.env beefForwarder [squattingFrame] state) ∧
      ¬ CarriesObject Reference.env squattingFrame.raw heldRecord heldTopic ∧
      ¬ WinsObject Reference.env beefForwarder ⟨0, "tx"⟩ heldKey heldSubmission
        (receive Reference.env beefForwarder [squattingFrame] state) := by
  have hvalid : ValidSubmission Reference.env beefForwarder heldSubmission heldRecord heldTopic
      (receive Reference.env beefForwarder [squattingFrame] state) := by
    apply validSubmission_held
    · rfl
    · decide +kernel
    · decide +kernel
  refine ⟨hvalid, not_carries_squattingFrame _ _, ?_⟩
  apply not_wins_of_names objectLaws rfl rfl not_carries_squattingFrame
  exact namesID_squattingFrame

end Sample

end ShardProxy
