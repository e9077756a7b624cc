/-
A BEEF record submitted as it is, and the same record framed by its publisher.
Both come to `checkBEEF`, where the ingress writes byte 7 over whatever the
publisher put there; ahead of it `PrepareBEEF` has checks of its own, and the
object bound is not the same in the two places.
-/
import ShardProxy.OfflineBeef

namespace ShardProxy

open ByteField

section Byte7

variable {env : Env} {fw : Forwarder} {s : NetAddr} {now : Time}

theorem beefGates_ok_iff {raw : Bytes} {src : Option NetAddr} {engine : PlaneEngine}
    {bf : BEEFFrame} {n : Nat} :
    beefGates env fw raw src = .ok (engine, bf, n) ↔
      fw.beefEngine = some engine ∧ env.decodeBEEF raw = some bf ∧
      ∃ object topics, env.splitBEEFPayload bf.payload = some (object, topics) ∧
        ¬ (0 < fw.beefMaxObject ∧ fw.beefMaxObject < (object.length : Int) ∧
          beefObjectBoundFor fw src < (object.length : Int)) ∧
        bf.topicID ≠ zeroHash ∧ ¬ topicMismatch env bf topics ∧
        env.isBEEFObject object ≠ false ∧ topics.elim 1 List.length = n := by
  constructor
  · intro hgates
    rw [beefGates] at hgates
    split at hgates
    · cases hgates
    · rename_i found hengine
      split at hgates
      · cases hgates
      · rename_i decoded hdecode
        split at hgates
        · cases hgates
        · rename_i object topics hsplit
          split_ifs at hgates
          cases hgates
          exact ⟨hengine, hdecode, object, topics, hsplit, ‹_›, ‹_›, ‹_›, ‹_›, rfl⟩
  · rintro ⟨hengine, hdecode, object, topics, hsplit, hsize, htopic, hmatch, hmarker, rfl⟩
    simp only [beefGates, hengine, hdecode, hsplit, if_neg hsize, if_neg htopic, if_neg hmatch,
      if_neg hmarker]

/-- A byte written over does not matter to whether a frame decodes. -/
theorem decodeBEEF_set_none (hlaws : RecordLaws env) {raw : Bytes}
    (hnone : env.decodeBEEF raw = none) (byte : UInt8) :
    env.decodeBEEF (raw.set 7 byte) = none := by
  by_cases hseven : 7 < raw.length
  · cases hfound : env.decodeBEEF (raw.set 7 byte) with
    | none => rfl
    | some bf =>
        have hback := hlaws.byte7 hfound (byteAt raw 7)
        rw [List.set_set, set_byteAt_self hseven, hnone] at hback
        cases hback
  · rwa [List.set_eq_of_length_le (Nat.le_of_not_lt hseven)]

/-- The conformance checks of a frame do not read byte 7. -/
theorem beefGates_set (hlaws : RecordLaws env) (raw : Bytes) (byte : UInt8)
    (src : Option NetAddr) :
    beefGates env fw (raw.set 7 byte) src =
      (beefGates env fw raw src).map fun passed =>
        (passed.1, { passed.2.1 with deliverCount := byte }, passed.2.2) := by
  rw [beefGates, beefGates]
  cases fw.beefEngine with
  | none => rfl
  | some engine =>
      cases hdecode : env.decodeBEEF raw with
      | none =>
          rw [decodeBEEF_set_none hlaws hdecode byte]
          rfl
      | some bf =>
          rw [hlaws.byte7 hdecode byte]
          simp only
          cases env.splitBEEFPayload bf.payload with
          | none => rfl
          | some split =>
              obtain ⟨object, topics⟩ := split
              have hmismatch : topicMismatch env { bf with deliverCount := byte } topics ↔
                  topicMismatch env bf topics := Iff.rfl
              simp only [hmismatch]
              repeat' split
              all_goals rfl

/-- The ingress writes byte 7 of a submission, so its value there is lost. -/
theorem checkBEEF_set (hlaws : RecordLaws env) (raw : Bytes) (byte : UInt8)
    (checkContentID : Bool) :
    checkBEEF env fw (raw.set 7 byte) (some s) now checkContentID =
      checkBEEF env fw raw (some s) now checkContentID := by
  rw [checkBEEF, checkBEEF, beefGates_set hlaws]
  cases beefGates env fw raw (some s) with
  | error drop => rfl
  | ok passed =>
      simp only [Except.map, setDeliverCount, List.set_set]
      rfl

theorem processBEEF_set (hlaws : RecordLaws env) (raw : Bytes) (byte : UInt8)
    (checkContentID : Bool) :
    processBEEF env fw (raw.set 7 byte) (some s) now checkContentID =
      processBEEF env fw raw (some s) now checkContentID := by
  rw [processBEEF, processBEEF, checkBEEF_set hlaws]

/-- The ContentID of a frame that carries its own is not a reason to drop it. -/
theorem processBEEF_content {raw : Bytes} {bf : BEEFFrame} (hdecode : env.decodeBEEF raw = some bf)
    (hcontent : bf.contentID = env.contentID bf.payload) (src : Option NetAddr) :
    processBEEF env fw raw src now true = processBEEF env fw raw src now false := by
  have hcheck : checkBEEF env fw raw src now true = checkBEEF env fw raw src now false := by
    rw [checkBEEF, checkBEEF]
    cases hgates : beefGates env fw raw src with
    | error drop => rfl
    | ok passed =>
        obtain ⟨engine, found, topics⟩ := passed
        obtain rfl := Option.some.inj ((beefGates_ok hgates).symm.trans hdecode)
        have hsame : (setDeliverCount fw found raw src topics).1.contentID =
            env.contentID (setDeliverCount fw found raw src topics).1.payload := by
          cases src <;> exact hcontent
        have hgate : ∀ flag, contentGate env (setDeliverCount fw found raw src topics).1 src flag =
            .ok () := fun flag => if_neg fun hbad => hbad.2.2 hsame
        funext st
        rw [Fw.gate_bind_ok rfl, Fw.gate_bind_ok rfl]
        simp only [hgate]
  rw [processBEEF, processBEEF, hcheck]

end Byte7

section Neutral

variable (env : Env) (fw : Forwarder)

/-- The frame a publisher makes of a record, with any DeliverCount byte. -/
def PreFramed (rec frame : Bytes) : Prop :=
  ∃ deliver built byte, env.beefMulticastRecord rec deliver = some built ∧
    frame = built.set 7 byte

/-- A computation queues datagrams. -/
def Emits (x : Fw Unit) (st : FwState) : Prop :=
  (x st).2.queue ≠ st.queue

instance (x : Fw Unit) (st : FwState) : Decidable (Emits x st) :=
  inferInstanceAs (Decidable (_ ≠ _))

/-- Submitting a record and processing its frame come to the same, and no policy
takes away what a record is granted without one. -/
structure Neutral (rec frame : Bytes) (s : NetAddr) (now : Time) (st : FwState) : Prop where
  emits : Emits (submitBEEF env fw rec (some s) now) st ↔
    Emits (processBEEFFrame env fw frame (some s) now) st
  queue : Emits (submitBEEF env fw rec (some s) now) st →
    (submitBEEF env fw rec (some s) now st).2.queue =
      (processBEEFFrame env fw frame (some s) now st).2.queue
  stores : Emits (submitBEEF env fw rec (some s) now) st →
    (submitBEEF env fw rec (some s) now st).2.stores =
      (processBEEFFrame env fw frame (some s) now st).2.stores
  lifted : Emits (submitBEEF env (fw.under none) rec (some s) now) st →
    Emits (submitBEEF env fw rec (some s) now) st

/-- No object bound is configured, and the policy's answer for the source is one
the object is over. -/
def Tightened (rec : Bytes) (s : NetAddr) : Prop :=
  fw.beefMaxObject = 0 ∧ ∃ policy record, fw.beefPolicy = some policy ∧
    env.decodeBEEFRecord rec = some (record, rec.length) ∧
    0 < policy.maxObjectBytes (srcIPOf (some s)) ∧
    policy.maxObjectBytes (srcIPOf (some s)) < record.object.length

/-- Nothing else stands against a frame: it conforms, the budgets allow it, its
key is free and its fragments can be counted. -/
structure Admissible (frame : Bytes) (s : NetAddr) (now : Time) (st : FwState) : Prop where
  gates : ∃ passed, beefGates env fw frame (some s) = .ok passed
  budget : (st.beefLimit.allow env (some s) frame.length now).1 = .allow
  free : ∀ {ref bf}, fw.beefDedup.or fw.txDedup = some ref → env.decodeBEEF frame = some bf →
    (ref.keySpace, beefClaimKey env bf.contentID bf.topicID) ∉ st.stores ref.store
  countable : ∀ {bf}, env.decodeBEEF frame = some bf →
    ¬ (fw.fragments bf.payload ∧ 65535 < fw.fragTotal bf.payload)

variable {env fw} {s : NetAddr} {now : Time} {rec frame : Bytes}

variable (fw) in
theorem beefDeliverCount_range (src : Option NetAddr) {n : Nat} (hn : 1 ≤ n) :
    1 ≤ beefDeliverCount fw src n ∧ beefDeliverCount fw src n ≤ n := by
  unfold beefDeliverCount
  split <;> dsimp only <;> split_ifs <;> omega

variable (fw) in
/-- A policy can only raise a bound that there is. -/
theorem beefMaxObject_le_bound (src : Option NetAddr) :
    fw.beefMaxObject ≤ beefObjectBoundFor fw src := by
  rw [beefObjectBoundFor]
  split
  · exact Int.le_refl _
  · dsimp only
    split <;> omega

theorem PreFramed.decode (hlaws : RecordLaws env) (hframed : PreFramed env rec frame) :
    ∃ record first rest deliver, env.decodeBEEFRecord rec = some (record, rec.length) ∧
      record.topics = first :: rest ∧
      env.decodeBEEF frame = some ⟨env.contentID rec, env.topicID first, deliver, rec⟩ := by
  obtain ⟨deliver, built, byte, hbuilt, rfl⟩ := hframed
  obtain ⟨record, first, rest, hrecord, htopics, hdecode⟩ := hlaws.framed hbuilt
  exact ⟨record, first, rest, byte, hrecord, htopics, hlaws.byte7 hdecode byte⟩

/-- The frame `PrepareBEEF` makes is processed as the publisher's own would be. -/
theorem processBEEF_preFramed (hlaws : RecordLaws env) (hframed : PreFramed env rec frame)
    {deliver : Nat} {prepared : Bytes}
    (hprepared : env.beefMulticastRecord rec deliver = some prepared)
    {record : BEEFRecord} (hrecord : env.decodeBEEFRecord rec = some (record, rec.length))
    (hrange : 1 ≤ deliver ∧ deliver ≤ record.topics.length) :
    processBEEF env fw prepared (some s) now false =
      processBEEFFrame env fw frame (some s) now := by
  obtain ⟨_, first, rest, _, _, _, hdecode⟩ := hframed.decode hlaws
  obtain ⟨_, built, byte, hbuilt, rfl⟩ := hframed
  have hsame := hlaws.redeliver hbuilt hrecord hrange.1 hrange.2
  obtain rfl := Option.some.inj (hprepared.symm.trans hsame)
  rw [processBEEFFrame, processBEEF_content hdecode rfl, processBEEF_set hlaws,
    processBEEF_set hlaws]

/-- A record is framed, or refused for the plane, its size or its marker. -/
theorem prepareBEEF_cases (hlaws : RecordLaws env) (hframed : PreFramed env rec frame)
    {record : BEEFRecord} (hrecord : env.decodeBEEFRecord rec = some (record, rec.length)) :
    (submitBEEF env fw rec (some s) now = processBEEFFrame env fw frame (some s) now) ∨
      (∃ result, prepareBEEF env fw rec (some s) = .refused result) ∧
        (fw.beefEngine = none ∨
          (0 < beefObjectBoundFor fw (some s) ∧
            beefObjectBoundFor fw (some s) < record.object.length) ∨
          env.isBEEFObject record.object = false) := by
  rw [submitBEEF]
  cases hengine : fw.beefEngine with
  | none => exact Or.inr ⟨⟨.disabled, by simp [prepareBEEF, hengine]⟩, Or.inl rfl⟩
  | some engine =>
      by_cases hover : 0 < beefObjectBoundFor fw (some s) ∧
          beefObjectBoundFor fw (some s) < record.object.length
      · refine Or.inr ⟨⟨.oversize, ?_⟩, Or.inr (Or.inl hover)⟩
        simp [prepareBEEF, hengine, hrecord, hover]
      · by_cases hmarker : env.isBEEFObject record.object = false
        · refine Or.inr ⟨⟨.badMarker, ?_⟩, Or.inr (Or.inr hmarker)⟩
          simp [prepareBEEF, hengine, hrecord, hover, hmarker]
        · have hrange := beefDeliverCount_range fw (some s) (hlaws.topics hrecord).1
          obtain ⟨_, built, _, hbuilt, _⟩ := id hframed
          have hprepared := hlaws.redeliver hbuilt hrecord hrange.1 hrange.2
          left
          rw [← processBEEF_preFramed hlaws hframed hprepared hrecord hrange]
          simp [prepareBEEF, hengine, hrecord, hover, hmarker, hprepared, dispatchBEEF]

theorem submitBEEF_of_refused {result : BEEFResult}
    (hrefused : prepareBEEF env fw rec (some s) = .refused result) (now : Time) (st : FwState) :
    submitBEEF env fw rec (some s) now st = (.error (.submission result), st) := by
  rw [submitBEEF, hrefused]
  rfl

/-- The frame of a record that has a policy's allowance fails its checks for the
reason the record was refused. -/
theorem processBEEFFrame_of_refused (hlaws : RecordLaws env) (hframed : PreFramed env rec frame)
    (hbound : 0 ≤ fw.beefMaxObject) (hloose : ¬ Tightened env fw rec s)
    {record : BEEFRecord} (hrecord : env.decodeBEEFRecord rec = some (record, rec.length))
    (hreason : fw.beefEngine = none ∨
      (0 < beefObjectBoundFor fw (some s) ∧
        beefObjectBoundFor fw (some s) < record.object.length) ∨
      env.isBEEFObject record.object = false) (now : Time) (st : FwState) :
    ∃ drop, processBEEFFrame env fw frame (some s) now st = (.error drop, st) := by
  have hgates : ∃ drop, beefGates env fw frame (some s) = .error drop := by
    obtain ⟨found, first, rest, deliver, hfound, htopics, hdecode⟩ := hframed.decode hlaws
    obtain ⟨rfl, -⟩ := Prod.mk.inj (Option.some.inj (hfound.symm.trans hrecord))
    cases hengine : fw.beefEngine with
    | none => exact ⟨.packet .beefDisabled, by simp [beefGates, hengine]⟩
    | some engine =>
        simp only [beefGates, hengine, hdecode, hlaws.split hrecord]
        split_ifs with hover htopic hmismatch hmarker
        · exact ⟨_, rfl⟩
        · exact ⟨_, rfl⟩
        · exact ⟨_, rfl⟩
        · exact ⟨_, rfl⟩
        · exfalso
          rcases hreason with hnone | hlarge | hbad
          · cases hengine.symm.trans hnone
          · apply hover
            rcases Int.lt_or_eq_of_le hbound with hpos | hzero
            · refine ⟨hpos, ?_, hlarge.2⟩
              exact Int.lt_of_le_of_lt (beefMaxObject_le_bound fw (some s)) hlarge.2
            · exfalso
              apply hloose
              rw [beefObjectBoundFor] at hlarge
              split at hlarge
              · omega
              · rename_i policy hpolicy
                refine ⟨hzero.symm, policy, _, hpolicy, hrecord, ?_⟩
                dsimp only at hlarge
                split at hlarge <;> omega
          · exact hmarker hbad
  obtain ⟨drop, hgates⟩ := hgates
  refine ⟨drop, ?_⟩
  rw [processBEEFFrame, processBEEF]
  apply Fw.bind_of_error
  rw [checkBEEF, Fw.gate_bind_error hgates]

theorem claimBEEFIngress_eq (key : Hash32) (frameType : String) :
    claimBEEFIngress fw key frameType =
      claimIngressIn (fw.beefDedup.or fw.txDedup) key frameType := by
  rw [claimBEEFIngress]
  cases fw.beefDedup <;> rfl

/-- Past its checks a submission is charged, claimed and handed on. -/
theorem checkBEEF_of_gates {engine : PlaneEngine} {bf : BEEFFrame} {topics : Nat}
    (hgates : beefGates env fw frame (some s) = .ok (engine, bf, topics))
    (hcontent : bf.contentID = env.contentID bf.payload) (now : Time) (checkContentID : Bool)
    (st : FwState) :
    checkBEEF env fw frame (some s) now checkContentID st =
      (chargeBudget env (some s) frame.length now >>= fun _ =>
        claimIngressIn (fw.beefDedup.or fw.txDedup) (beefClaimKey env bf.contentID bf.topicID)
          "brc148" >>= fun _ =>
        pure ⟨(setDeliverCount fw bf frame (some s) topics).1, engine.groupIndex bf.topicID,
          (setDeliverCount fw bf frame (some s) topics).2⟩) st := by
  have hgate : ∀ deliver, contentGate env { bf with deliverCount := deliver } (some s)
      checkContentID = .ok () := fun deliver => if_neg fun hbad => hbad.2.2 hcontent
  rw [checkBEEF, Fw.gate_bind_ok hgates]
  simp only [setDeliverCount, hgate, claimBEEFIngress_eq, List.length_set]
  rfl

/-- What an object past its checks puts on the queue is not nothing. -/
theorem requests_beefOut_ne_nil (checked : CheckedBEEF) (src : Option NetAddr) (chains : Chains) :
    (beefOut fw checked src).requests env chains ≠ [] := by
  rw [Outgoing.requests]
  cases hsplit : (beefOut fw checked src).split with
  | none => exact List.cons_ne_nil _ _
  | some plan =>
      have hpos := fragTotal_pos ((beefOut fw checked src).split_fragments hsplit)
      simp only [planRequests, ne_eq, List.map_eq_nil_iff, List.range_eq_nil]
      exact Nat.ne_of_gt hpos

/-- A checked frame is queued unless its fragments cannot be counted. -/
theorem emits_emitBEEF_iff (hfrag : FragmentLaws env) (checked : CheckedBEEF)
    (src : Option NetAddr) (st : FwState) :
    Emits (emitBEEF env fw checked src) st ↔ ¬ Uncountable fw checked src := by
  rw [Emits, emitBEEF_eq, uncountable_iff]
  by_cases hover : (beefOut fw checked src).Overflows
  · rw [Outgoing.send_overflow _ hover]
    exact ⟨fun hemits => absurd rfl hemits, fun hfit => absurd hover hfit⟩
  · rw [Outgoing.send_apply _ hfrag st hover]
    refine ⟨fun _ => hover, fun _ hsame => ?_⟩
    exact requests_beefOut_ne_nil checked src st.chains (List.append_right_eq_self.mp hsame)

theorem claimIngressIn_cases (dedup : Option DedupRef) (key : Hash32) (frameType : String)
    (st : FwState) :
    (∃ ref, dedup = some ref ∧ (ref.keySpace, key) ∈ st.stores ref.store ∧
      claimIngressIn dedup key frameType st = (.error (.deduped frameType), st)) ∨
    (∀ ref, dedup = some ref → (ref.keySpace, key) ∉ st.stores ref.store) ∧
      ∃ stores, claimIngressIn dedup key frameType st = (.ok (), { st with stores := stores }) := by
  cases dedup with
  | none => exact Or.inr ⟨fun ref hnone => (by cases hnone), st.stores, rfl⟩
  | some ref =>
      by_cases hclaimed : (ref.keySpace, key) ∈ st.stores ref.store
      · exact Or.inl ⟨ref, rfl, hclaimed, claimIngressIn_of_mem hclaimed frameType⟩
      · refine Or.inr ⟨?_, _, claimIngressIn_of_not_mem hclaimed frameType⟩
        rintro found hfound
        cases hfound
        exact hclaimed

/-- A frame that carries its own ContentID is sent exactly when nothing stands
against it. -/
theorem emits_process_iff (hfrag : FragmentLaws env) {bf : BEEFFrame}
    (hdecode : env.decodeBEEF frame = some bf) (hcontent : bf.contentID = env.contentID bf.payload)
    (st : FwState) :
    Emits (processBEEFFrame env fw frame (some s) now) st ↔
      Admissible env fw frame s now st := by
  rw [Emits, processBEEFFrame, processBEEF]
  cases hgates : beefGates env fw frame (some s) with
  | error drop =>
      have hcheck : checkBEEF env fw frame (some s) now true st = (.error drop, st) := by
        rw [checkBEEF, Fw.gate_bind_error hgates]
      rw [Fw.bind_of_error hcheck]
      refine ⟨fun hemits => absurd rfl hemits, fun hopen => ?_⟩
      obtain ⟨passed, hok⟩ := hopen.gates
      cases hgates.symm.trans hok
  | ok passed =>
      obtain ⟨engine, found, topics⟩ := passed
      obtain rfl := Option.some.inj ((beefGates_ok hgates).symm.trans hdecode)
      have hcheck := checkBEEF_of_gates hgates hcontent now true st
      rw [Fw.bind_apply, chargeBudget_apply] at hcheck
      cases hallow : (st.beefLimit.allow env (some s) frame.length now).1 with
      | denySource =>
          rw [hallow] at hcheck
          rw [Fw.bind_of_error hcheck]
          refine ⟨fun hemits => absurd rfl hemits, fun hopen => ?_⟩
          cases hallow.symm.trans hopen.budget
      | denyPlane =>
          rw [hallow] at hcheck
          rw [Fw.bind_of_error hcheck]
          refine ⟨fun hemits => absurd rfl hemits, fun hopen => ?_⟩
          cases hallow.symm.trans hopen.budget
      | allow =>
          simp only [hallow, budgetVerdict] at hcheck
          rcases claimIngressIn_cases (fw.beefDedup.or fw.txDedup)
              (beefClaimKey env found.contentID found.topicID) "brc148"
              { st with beefLimit := (st.beefLimit.allow env (some s) frame.length now).2 } with
            ⟨ref, hdedup, hclaimed, hlost⟩ | ⟨hfree, stores, hwon⟩
          · rw [Fw.bind_of_error hlost] at hcheck
            rw [Fw.bind_of_error hcheck]
            refine ⟨fun hemits => absurd rfl hemits, fun hopen => ?_⟩
            exact absurd hclaimed (hopen.free hdedup hdecode)
          · rw [Fw.bind_of_ok hwon] at hcheck
            rw [Fw.bind_of_ok hcheck]
            refine (emits_emitBEEF_iff hfrag _ (some s) _).trans ?_
            constructor
            · intro hfit
              refine ⟨⟨_, hgates⟩, hallow, ?_, ?_⟩
              · intro ref bf hdedup hbf
                obtain rfl := Option.some.inj (hbf.symm.trans hdecode)
                exact hfree ref hdedup
              · intro bf hbf hover
                obtain rfl := Option.some.inj (hbf.symm.trans hdecode)
                exact hfit ⟨rfl, hover⟩
            · exact fun hopen hover => hopen.countable hdecode hover.2

/-- With a policy's bound where none is configured, the record is refused. -/
theorem prepareBEEF_of_tightened (htight : Tightened env fw rec s) :
    ∃ result, prepareBEEF env fw rec (some s) = .refused result := by
  obtain ⟨hzero, policy, record, hpolicy, hrecord, hpos, hover⟩ := htight
  cases hengine : fw.beefEngine with
  | none => exact ⟨.disabled, by simp [prepareBEEF, hengine]⟩
  | some engine =>
      refine ⟨.oversize, ?_⟩
      simp [prepareBEEF, hengine, hrecord, beefObjectBoundFor, hpolicy, hzero, hpos, hover]

theorem not_emits_of_error {x : Fw Unit} {st : FwState} {drop : Drop}
    (hx : x st = (.error drop, st)) : ¬ Emits x st :=
  fun hemits => hemits (by rw [hx])

/-- The checks of the plane are no stricter with a policy. -/
theorem Admissible.of_under {st : FwState}
    (hopen : Admissible env (fw.under none) frame s now st) : Admissible env fw frame s now st := by
  refine ⟨?_, hopen.budget, hopen.free, hopen.countable⟩
  obtain ⟨⟨engine, bf, n⟩, hgates⟩ := hopen.gates
  obtain ⟨hengine, hdecode, object, topics, hsplit, hsize, hrest⟩ := beefGates_ok_iff.mp hgates
  refine ⟨(engine, bf, n),
    beefGates_ok_iff.mpr ⟨hengine, hdecode, object, topics, hsplit, ?_, hrest⟩⟩
  exact fun hover => hsize ⟨hover.1, hover.2.1, hover.2.1⟩

/-- What pre-framing changes: nothing, unless the policy's answer bounds objects
where no bound is configured and nothing else stands against the frame. -/
theorem preframing_neutral_iff (hlaws : RecordLaws env) (hfrag : FragmentLaws env)
    (hbound : 0 ≤ fw.beefMaxObject) (hframed : PreFramed env rec frame) (s : NetAddr)
    (now : Time) (st : FwState) :
    Neutral env fw rec frame s now st ↔
      ¬ (Tightened env fw rec s ∧ Admissible env fw frame s now st) := by
  obtain ⟨record, first, rest, deliver, hrecord, _, hdecode⟩ := hframed.decode hlaws
  have hemits : ∀ config : Forwarder,
      Emits (processBEEFFrame env config frame (some s) now) st ↔
        Admissible env config frame s now st :=
    fun config => emits_process_iff hfrag hdecode rfl st
  have hbare : Emits (submitBEEF env (fw.under none) rec (some s) now) st →
      Admissible env (fw.under none) frame s now st := by
    intro hsent
    rcases prepareBEEF_cases hlaws hframed hrecord with hsame | ⟨⟨result, hrefused⟩, _⟩
    · rwa [hsame, hemits] at hsent
    · exact absurd hsent (not_emits_of_error (submitBEEF_of_refused hrefused now st))
  constructor
  · rintro hneutral ⟨htight, hopen⟩
    obtain ⟨result, hrefused⟩ := prepareBEEF_of_tightened htight
    have hsubmit := hneutral.emits.mpr ((hemits fw).mpr hopen)
    exact not_emits_of_error (submitBEEF_of_refused hrefused now st) hsubmit
  · intro hloose
    rcases prepareBEEF_cases hlaws hframed hrecord with hsame | ⟨⟨result, hrefused⟩, hreason⟩
    · refine ⟨by rw [hsame], fun _ => by rw [hsame], fun _ => by rw [hsame], ?_⟩
      rw [hsame, hemits fw]
      exact fun hopen => (hbare hopen).of_under
    · have hquiet := not_emits_of_error (submitBEEF_of_refused hrefused now st)
      have hclosed : ¬ Admissible env fw frame s now st := by
        intro hopen
        have hfree : ¬ Tightened env fw rec s := fun htight => hloose ⟨htight, hopen⟩
        obtain ⟨drop, hdrop⟩ :=
          processBEEFFrame_of_refused hlaws hframed hbound hfree hrecord hreason now st
        exact not_emits_of_error hdrop ((hemits fw).mpr hopen)
      refine ⟨?_, fun hsent => absurd hsent hquiet, fun hsent => absurd hsent hquiet, ?_⟩
      · rw [hemits fw]
        exact ⟨fun hsent => absurd hsent hquiet, fun hopen => absurd hopen hclosed⟩
      · exact fun hopen => absurd (hbare hopen).of_under hclosed

end Neutral

section Sample

open Reference

/-- A policy that answers five bytes to every source, and no configured bound. -/
def boundedForwarder : Forwarder :=
  { beefForwarder with beefPolicy := some ⟨fun _ _ => 1, fun _ => 5⟩ }

/-- The frame of the sample record with fifteen in byte 7. -/
def sampleFraming : Bytes :=
  ((Reference.env.beefMulticastRecord (sampleRecord (sampleObject 1)) 1).getD []).set 7 15

theorem preFramed_sampleFraming :
    PreFramed Reference.env (sampleRecord (sampleObject 1)) sampleFraming :=
  ⟨1, _, 15, rfl, rfl⟩

theorem preframing_neutral_iff_sample :
    Emits (submitBEEF Reference.env beefForwarder (sampleRecord (sampleObject 1))
        (some (source 1)) 0) state ∧
      Neutral Reference.env beefForwarder (sampleRecord (sampleObject 1)) sampleFraming
        (source 1) 0 state := by
  refine ⟨by decide +kernel, ?_⟩
  apply (preframing_neutral_iff recordLaws fragmentLaws (by decide) preFramed_sampleFraming
    (source 1) 0 state).mpr
  rintro ⟨⟨_, policy, _, hpolicy, _⟩, _⟩
  cases hpolicy

/-- The record is refused where its frame is sent, and would have been sent itself
without the policy. -/
theorem boundedRecord_refused :
    ¬ Emits (submitBEEF Reference.env boundedForwarder (sampleRecord (sampleObject 1))
        (some (source 1)) 0) state ∧
      Emits (submitBEEF Reference.env (boundedForwarder.under none)
        (sampleRecord (sampleObject 1)) (some (source 1)) 0) state ∧
      Emits (processBEEFFrame Reference.env boundedForwarder sampleFraming
        (some (source 1)) 0) state := by
  refine ⟨?_, ?_, ?_⟩
  · decide +kernel
  · decide +kernel
  · decide +kernel

end Sample

end ShardProxy
