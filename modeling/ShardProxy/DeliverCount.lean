/-
Byte 7 of every BEEF datagram that leaves.  The count is computed when a record
is framed and again when the frame is checked, written into the raw bytes and
into the decoded frame, and carried on from there by the stamp, by the fragment
loop or by an admission.  On every path it is the door's answer, and what the
publisher wrote there is lost.
-/
import ShardProxy.Settling

namespace ShardProxy

open ByteField

/-- What the door grants a source of `n` topics: the policy's answer brought into
`[1, n]`, or one topic without a policy, or without an IP to ask it by. -/
def doorCount (policy : Option BEEFSubmitPolicy) (s : NetAddr) (n : Nat) : Int :=
  match policy, srcIPOf (some s) with
  | some policy, some ip => max 1 (min (policy.deliverCount ip n) n)
  | _, _ => 1

/-- A BEEF submission by the path it takes: framed by its publisher, a record, a
prepared record sent in line, or one admitted and fragmented with an allocator. -/
inductive BEEFSubmission where
  | framed (raw : Bytes)
  | record (rec : Bytes)
  | prepared (p : PreparedBEEF)
  | offline (p : PreparedBEEF) (alloc : Nat → Nat → Bytes)

section Paths

variable (env : Env) (fw : Forwarder)

/-- How many topics the payload of a frame has; a bare object counts one. -/
def frameTopics (frame : Bytes) : Option Nat := do
  let bf ← env.decodeBEEF frame
  let (_, topics) ← env.splitBEEFPayload bf.payload
  pure (topics.elim 1 List.length)

def BEEFSubmission.topics : BEEFSubmission → Option Nat
  | .framed raw => frameTopics env raw
  | .record rec => (env.decodeBEEFRecord rec).map fun decoded => decoded.1.topics.length
  | .prepared p => p.frame.bind (frameTopics env)
  | .offline p _ => p.frame.bind (frameTopics env)

def queuedBy (x : Fw Unit) (st : FwState) : List Bytes :=
  ((x st).2.queue.drop st.queue.length).map EnqueueReq.raw

/-- What comes of an admission once it is fragmented. -/
def fragmentedBy (alloc : Nat → Nat → Bytes) : Except Drop BEEFAdmission → List Bytes
  | .error _ => []
  | .ok a =>
      match fragmentBEEFInto env fw a alloc with
      | .error _ => []
      | .ok datagrams => datagrams

variable (s : NetAddr) (now : Time) (st : FwState)

/-- The submission passes every check on its path. -/
def BEEFSubmission.Admitted : BEEFSubmission → Prop
  | .framed raw => (processBEEFFrame env fw raw (some s) now st).1 = .ok ()
  | .record rec => (submitBEEF env fw rec (some s) now st).1 = .ok ()
  | .prepared p => (dispatchBEEF env fw p (some s) now st).1 = .ok ()
  | .offline p _ => ∃ a, (admitBEEF env fw p (some s) now st).1 = .ok a

def BEEFSubmission.emitted : BEEFSubmission → List Bytes
  | .framed raw => queuedBy (processBEEFFrame env fw raw (some s) now) st
  | .record rec => queuedBy (submitBEEF env fw rec (some s) now) st
  | .prepared p => queuedBy (dispatchBEEF env fw p (some s) now) st
  | .offline p alloc => fragmentedBy env fw alloc (admitBEEF env fw p (some s) now st).1

end Paths

/-- The allocator of an off-line submission returns the lengths asked for. -/
def BEEFSubmission.Exact : BEEFSubmission → Prop
  | .offline _ alloc => ExactAlloc alloc
  | _ => True

/-- Two frames that differ in byte 7 at most. -/
def SameButByte7 (left right : Bytes) : Prop :=
  left.length = right.length ∧ ∀ i, i ≠ 7 → left[i]? = right[i]?

/-- Two submissions on one path whose frames differ in byte 7 at most. -/
inductive BEEFSubmission.SameButByte7 : BEEFSubmission → BEEFSubmission → Prop where
  | framed {left right : Bytes} (hsame : ShardProxy.SameButByte7 left right) :
      SameButByte7 (.framed left) (.framed right)
  | prepared {p q : PreparedBEEF} {left right : Bytes} (hleft : p.frame = some left)
      (hright : q.frame = some right) (hsame : ShardProxy.SameButByte7 left right) :
      SameButByte7 (.prepared p) (.prepared q)
  | offline {p q : PreparedBEEF} {left right : Bytes} {alloc : Nat → Nat → Bytes}
      (hleft : p.frame = some left) (hright : q.frame = some right)
      (hsame : ShardProxy.SameButByte7 left right) :
      SameButByte7 (.offline p alloc) (.offline q alloc)

section Door

variable {env : Env} {fw : Forwarder} {s : NetAddr} {now : Time} {st : FwState}

/-- The code's two comparisons are the clamp. -/
theorem beefDeliverCount_eq_doorCount (s : NetAddr) {n : Nat} (hn : 1 ≤ n) :
    (beefDeliverCount fw (some s) n : Int) = doorCount fw.beefPolicy s n := by
  have hclamp : ∀ answer : Int,
      ((if (n : Int) < (if answer < 1 then 1 else answer) then (n : Int)
        else (if answer < 1 then 1 else answer)).toNat : Int) = max 1 (min answer n) := by
    intro answer
    rw [Int.toNat_of_nonneg] <;> split_ifs <;> omega
  cases hpolicy : fw.beefPolicy with
  | none =>
      simp only [beefDeliverCount, doorCount, hpolicy, hclamp]
      omega
  | some policy =>
      cases hip : srcIPOf (some s) with
      | none =>
          simp only [beefDeliverCount, doorCount, hpolicy, hip, hclamp]
          omega
      | some ip => simp only [beefDeliverCount, doorCount, hpolicy, hip, hclamp]

theorem getElem?_of_byteAt {raw : Bytes} {pos : Nat} {byte : UInt8} (hpos : pos < raw.length)
    (hbyte : byteAt raw pos = byte) : raw[pos]? = some byte := by
  rw [← hbyte, byteAt, List.getD_eq_getElem?_getD, List.getElem?_eq_getElem hpos,
    Option.getD_some]

theorem SameButByte7.eq_set {left right : Bytes} (hsame : SameButByte7 left right) :
    right = left.set 7 (byteAt right 7) := by
  apply List.ext_getElem?
  intro i
  by_cases hi : i = 7
  · subst hi
    by_cases hseven : 7 < right.length
    · rw [List.getElem?_set_self (hsame.1 ▸ hseven)]
      exact getElem?_of_byteAt hseven rfl
    · have hshort : left.length ≤ 7 := hsame.1 ▸ Nat.le_of_not_lt hseven
      rw [List.set_eq_of_length_le hshort, List.getElem?_eq_none hshort,
        List.getElem?_eq_none (Nat.le_of_not_lt hseven)]
  · rw [List.getElem?_set_ne (Ne.symm hi), hsame.2 i hi]

/-- What a checked submission is: its frame conforms, and the door's count is in
byte 7 of its bytes and in its decoding. -/
theorem checkBEEF_counts (hdec : DecodeLaws env) (hsplit : SplitLaws env) {frame : Bytes}
    {checkContentID : Bool} {checked : CheckedBEEF} {before : FwState}
    (hcheck : checkBEEF env fw frame (some s) now checkContentID st = (.ok checked, before)) :
    ∃ n, frameTopics env frame = some n ∧ headerSize ≤ checked.raw.length ∧
      byteAt checked.raw 7 = checked.bf.deliverCount ∧
      (checked.bf.deliverCount.toNat : Int) = doorCount fw.beefPolicy s n := by
  obtain ⟨plane, bf, n, hgates, rfl⟩ := (checkBEEF_reads frame checkContentID).of_ok hcheck
  obtain ⟨_, hdecode, object, topics, hpayload, _, _, _, _, hn⟩ := beefGates_ok_iff.mp hgates
  have hsize := (hdec.decodeBEEF_size hdecode).1
  have hrange : 1 ≤ n ∧ n ≤ 15 := by
    subst hn
    cases topics with
    | none => decide
    | some topics => exact hsplit.topics hpayload
  have hcount := beefDeliverCount_range fw (some s) hrange.1
  refine ⟨n, ?_, ?_, ?_, ?_⟩
  · simp [frameTopics, hdecode, hpayload, hn]
  · simpa [setDeliverCount] using hsize
  · exact byteAt_set_self frame _ (Nat.lt_of_lt_of_le (by decide) hsize)
  · rw [← beefDeliverCount_eq_doorCount s hrange.1]
    have hsmall : beefDeliverCount fw (some s) n < 2 ^ 8 := by omega
    exact congrArg Int.ofNat (UInt8.toNat_ofNat_of_lt' hsmall)

/-- Every datagram of a checked submission has its count in byte 7: the stamp
leaves it there, and the fragments get it from the decoding. -/
theorem byte7_of_mem_requests (hfrag : FragmentLaws env) {checked : CheckedBEEF}
    (hsize : headerSize ≤ checked.raw.length)
    (hbyte : byteAt checked.raw 7 = checked.bf.deliverCount) {chains : Chains}
    {req : EnqueueReq} (hreq : req ∈ (beefOut fw checked (some s)).requests env chains) :
    req.raw[7]? = some checked.bf.deliverCount := by
  rcases Outgoing.mem_requests hreq with ⟨plan, hplan, hpiece⟩ | ⟨_, hwhole⟩
  · obtain ⟨_, hs, rfl⟩ := splitOf_some hplan
    obtain ⟨i, _, rfl⟩ := List.mem_map.mp hpiece
    apply List.getElem?_set_self
    rw [hfrag.length]
    exact Nat.lt_of_lt_of_le (by decide) (Nat.le_add_right _ _)
  · obtain rfl := List.mem_singleton.mp hwhole
    have hseven : 7 < checked.raw.length := Nat.lt_of_lt_of_le (by decide) hsize
    apply getElem?_of_byteAt
    · exact (stamped_length env fw checked.raw _ _ hsize).symm ▸ hseven
    · exact (byteAt_stamped env fw hsize _ _ (by decide)).trans hbyte

/-- In line an admitted frame is checked, and its datagrams are queued. -/
theorem processBEEF_admitted (hfrag : FragmentLaws env) {frame : Bytes} {checkContentID : Bool}
    (hok : (processBEEF env fw frame (some s) now checkContentID st).1 = .ok ()) :
    ∃ checked before,
      checkBEEF env fw frame (some s) now checkContentID st = (.ok checked, before) ∧
      queuedBy (processBEEF env fw frame (some s) now checkContentID) st =
        ((beefOut fw checked (some s)).requests env before.chains).map EnqueueReq.raw := by
  rcases hcheck : checkBEEF env fw frame (some s) now checkContentID st with
    ⟨drop | checked, before⟩
  · rw [processBEEF, Fw.bind_of_error hcheck] at hok
    cases hok
  · have hqueue := (queueBlind_checkBEEF _ _ _ _).queue_eq hcheck
    rw [processBEEF, Fw.bind_of_ok hcheck, emitBEEF_eq] at hok
    refine ⟨checked, before, rfl, ?_⟩
    by_cases hover : (beefOut fw checked (some s)).Overflows
    · rw [Outgoing.send_overflow _ hover] at hok
      cases hok
    · rw [queuedBy, processBEEF, Fw.bind_of_ok hcheck, emitBEEF_eq,
        Outgoing.send_apply _ hfrag _ hover]
      simp only [hqueue, List.drop_left]

theorem mem_of_mapM_ok {A B E : Type} {f : A → Except E B} {list : List A} {results : List B}
    (hok : list.mapM f = .ok results) {result : B} (hmem : result ∈ results) :
    ∃ item ∈ list, f item = .ok result := by
  induction list generalizing results with
  | nil =>
      cases hok
      cases hmem
  | cons item rest ih =>
      rw [List.mapM_cons] at hok
      cases hitem : f item with
      | error fault =>
          rw [hitem] at hok
          cases hok
      | ok first =>
          cases hrest : rest.mapM f with
          | error fault =>
              rw [hitem, hrest] at hok
              cases hok
          | ok others =>
              rw [hitem, hrest] at hok
              cases hok
              rcases List.mem_cons.mp hmem with rfl | hmem
              · exact ⟨item, List.mem_cons_self, hitem⟩
              · obtain ⟨found, hfound, hresult⟩ := ih hrest hmem
                exact ⟨found, List.mem_cons_of_mem item hfound, hresult⟩

/-- A fragment that is built at all is the one the split loop queues. -/
theorem fragmentInto_ok (hfrag : FragmentLaws env) {a : BEEFAdmission}
    (hfragments : fw.fragments a.bf.payload) (hk : a.k = fw.fragTotal a.bf.payload)
    (hmax : a.k ≤ 65535) {alloc : Nat → Nat → Bytes} {i : Nat} (hi : i < a.k)
    {datagram : Bytes} (hok : fragmentInto env fw a alloc i = .ok datagram) :
    datagram = planDatagram env fw (fragmentBEEFPlan fw a.bf a.ip a.groupIdx) a.k i a.hashKey
      (a.firstSeq + UInt64.ofNat i) := by
  by_cases hlength : (alloc i (headerSizeV3 + min fw.fragDataSize
      (a.bf.payload.length - i * fw.fragDataSize))).length =
        headerSizeV3 + min fw.fragDataSize (a.bf.payload.length - i * fw.fragDataSize)
  · rw [fragmentInto_eq hfrag hfragments hk hmax hi hlength] at hok
    exact (Except.ok.inj hok).symm
  · simp only [fragmentInto, ne_eq, hlength, not_false_eq_true, ↓reduceIte] at hok
    cases hok

/-- Whatever memory an admission is fragmented into, what is built are datagrams
of the in-line path. -/
theorem fragmentedBy_subset (hfrag : FragmentLaws env) {checked : CheckedBEEF}
    (hfit : ¬ Uncountable fw checked (some s)) (chains : Chains) (alloc : Nat → Nat → Bytes) :
    fragmentedBy env fw alloc (.ok (admissionOf env fw checked (some s) chains)) ⊆
      ((beefOut fw checked (some s)).requests env chains).map EnqueueReq.raw := by
  intro datagram hdatagram
  rw [fragmentedBy] at hdatagram
  by_cases hfragments : fw.fragments checked.bf.payload
  · have hmax : fw.fragTotal checked.bf.payload ≤ 65535 :=
      Nat.le_of_not_lt fun hover => hfit ⟨rfl, hfragments, hover⟩
    have hsplit : (beefOut fw checked (some s)).split =
        some (fragmentBEEFPlan fw checked.bf (addrToIPv6 s) checked.groupIdx) := if_pos hfragments
    have hk := Nat.ne_of_gt (fragTotal_pos hfragments)
    cases hbuilt : fragmentBEEFInto env fw (admissionOf env fw checked (some s) chains) alloc with
    | error fault =>
        rw [hbuilt] at hdatagram
        cases hdatagram
    | ok datagrams =>
        rw [hbuilt] at hdatagram
        simp only [admissionOf, hfragments, ↓reduceIte, fragmentBEEFInto, hk] at hbuilt
        obtain ⟨i, hi, hpiece⟩ := mem_of_mapM_ok hbuilt hdatagram
        rw [Outgoing.requests, hsplit]
        refine List.mem_map.mpr ⟨_, List.mem_map.mpr ⟨i, hi, rfl⟩, ?_⟩
        exact (fragmentInto_ok hfrag hfragments rfl hmax (List.mem_range.mp hi) hpiece).symm
  · have hsplit : (beefOut fw checked (some s)).split = none := if_neg hfragments
    simp only [admissionOf, hfragments, ↓reduceIte, fragmentBEEFInto] at hdatagram
    rw [Outgoing.requests, hsplit]
    split at hdatagram
    · cases hdatagram
    · rename_i datagrams hbuilt
      split at hbuilt
      · cases hbuilt
      · cases hbuilt
        exact hdatagram

/-- Off line an admitted record is checked, and its admission holds its numbers. -/
theorem admitBEEF_admitted {p : PreparedBEEF} {a : BEEFAdmission}
    (hok : (admitBEEF env fw p (some s) now st).1 = .ok a) :
    ∃ frame checked before, p.frame = some frame ∧
      checkBEEF env fw frame (some s) now false st = (.ok checked, before) ∧
      ¬ Uncountable fw checked (some s) ∧
      a = admissionOf env fw checked (some s) before.chains := by
  rw [admitBEEF_eq_judge] at hok
  rcases hjudge : judge env fw p (some s) now st with ⟨drop | checked, before⟩
  · rw [Fw.bind_of_error hjudge] at hok
    cases hok
  · rw [Fw.bind_of_ok hjudge] at hok
    obtain ⟨frame, hframe, hcheck, hcountable⟩ := judge_ok hjudge
    exact ⟨frame, checked, before, hframe, hcheck, hcountable, (Except.ok.inj hok).symm⟩

/-- What an admitted submission comes to: one frame checked, and datagrams of it
alone; all of them, unless memory of the wrong length was handed in. -/
structure BEEFSubmission.Passed (sub : BEEFSubmission) (env : Env) (fw : Forwarder)
    (s : NetAddr) (now : Time) (st : FwState) (frame : Bytes) (checked : CheckedBEEF)
    (before : FwState) : Prop where
  check : ∃ checkContentID,
    checkBEEF env fw frame (some s) now checkContentID st = (.ok checked, before)
  topics : sub.topics env = frameTopics env frame
  emitted : sub.emitted env fw s now st ⊆
    ((beefOut fw checked (some s)).requests env before.chains).map EnqueueReq.raw
  exact : sub.Exact → sub.emitted env fw s now st =
    ((beefOut fw checked (some s)).requests env before.chains).map EnqueueReq.raw

theorem BEEFSubmission.Passed.of_eq {sub : BEEFSubmission} {frame : Bytes}
    {checkContentID : Bool} {checked : CheckedBEEF} {before : FwState}
    (hcheck : checkBEEF env fw frame (some s) now checkContentID st = (.ok checked, before))
    (htopics : sub.topics env = frameTopics env frame)
    (hqueued : sub.emitted env fw s now st =
      ((beefOut fw checked (some s)).requests env before.chains).map EnqueueReq.raw) :
    sub.Passed env fw s now st frame checked before where
  check := ⟨checkContentID, hcheck⟩
  topics := htopics
  emitted := by
    rw [hqueued]
    exact List.Subset.refl _
  exact := fun _ => hqueued

/-- A record has the topics its frame's payload has. -/
theorem frameTopics_prepareBEEF (hrec : RecordLaws env) {rec frame : Bytes}
    {src : Option NetAddr} (hframe : (prepareBEEF env fw rec src).frame = some frame) :
    (BEEFSubmission.record rec).topics env = frameTopics env frame := by
  obtain ⟨deliver, hbuilt⟩ := frame_of_prepared hframe
  obtain ⟨record, first, rest, hrecord, _, hdecode⟩ := hrec.framed hbuilt
  have hpayload := hrec.split hrecord
  simp [BEEFSubmission.topics, frameTopics, hrecord, hdecode, hpayload]

theorem dispatchBEEF_admitted (hfrag : FragmentLaws env) {p : PreparedBEEF}
    (hok : (dispatchBEEF env fw p (some s) now st).1 = .ok ()) :
    ∃ frame checked before, p.frame = some frame ∧
      checkBEEF env fw frame (some s) now false st = (.ok checked, before) ∧
      queuedBy (dispatchBEEF env fw p (some s) now) st =
        ((beefOut fw checked (some s)).requests env before.chains).map EnqueueReq.raw := by
  cases hframe : p.frame with
  | none =>
      rw [dispatchBEEF, hframe] at hok
      cases hok
  | some frame =>
      have hrun : dispatchBEEF env fw p (some s) now =
          processBEEF env fw frame (some s) now false := by
        rw [dispatchBEEF, hframe]
      rw [hrun] at hok ⊢
      obtain ⟨checked, before, hcheck, hqueued⟩ := processBEEF_admitted hfrag hok
      exact ⟨frame, checked, before, rfl, hcheck, hqueued⟩

theorem BEEFSubmission.Admitted.passed (hrec : RecordLaws env) (hfrag : FragmentLaws env)
    {sub : BEEFSubmission} (hadmitted : sub.Admitted env fw s now st) :
    ∃ frame checked before, sub.Passed env fw s now st frame checked before := by
  cases sub with
  | framed raw =>
      obtain ⟨checked, before, hcheck, hqueued⟩ := processBEEF_admitted hfrag hadmitted
      exact ⟨raw, checked, before, .of_eq hcheck rfl hqueued⟩
  | record rec =>
      obtain ⟨frame, checked, before, hframe, hcheck, hqueued⟩ :=
        dispatchBEEF_admitted hfrag hadmitted
      exact ⟨frame, checked, before,
        .of_eq hcheck (frameTopics_prepareBEEF hrec hframe) hqueued⟩
  | prepared p =>
      obtain ⟨frame, checked, before, hframe, hcheck, hqueued⟩ :=
        dispatchBEEF_admitted hfrag hadmitted
      have htopics : (BEEFSubmission.prepared p).topics env = frameTopics env frame := by
        rw [BEEFSubmission.topics, hframe, Option.bind_some]
      exact ⟨frame, checked, before, .of_eq hcheck htopics hqueued⟩
  | offline p alloc =>
      obtain ⟨a, hok⟩ := hadmitted
      obtain ⟨frame, checked, before, hframe, hcheck, hcountable, rfl⟩ := admitBEEF_admitted hok
      have htopics : (BEEFSubmission.offline p alloc).topics env = frameTopics env frame := by
        rw [BEEFSubmission.topics, hframe, Option.bind_some]
      have hemitted : (BEEFSubmission.offline p alloc).emitted env fw s now st =
          fragmentedBy env fw alloc (.ok (admissionOf env fw checked (some s) before.chains)) :=
        congrArg (fragmentedBy env fw alloc) hok
      refine ⟨frame, checked, before, ⟨false, hcheck⟩, htopics, ?_, ?_⟩
      · rw [hemitted]
        exact fragmentedBy_subset hfrag hcountable before.chains alloc
      · intro hexact
        rw [hemitted, fragmentedBy, (admissionOf_makes hfrag hcountable before.chains).built hexact,
          List.map_map]
        rfl

/-- The publisher's byte 7 makes no difference to what leaves. -/
theorem BEEFSubmission.SameButByte7.agree (hrec : RecordLaws env) {sub other : BEEFSubmission}
    (hsame : sub.SameButByte7 other) (hadmitted : sub.Admitted env fw s now st) :
    other.Admitted env fw s now st ∧
      other.emitted env fw s now st = sub.emitted env fw s now st := by
  cases hsame with
  | @framed left right hsame =>
      have hrun : processBEEFFrame env fw right (some s) now =
          processBEEFFrame env fw left (some s) now := by
        rw [hsame.eq_set]
        exact processBEEF_set hrec left _ true
      rw [BEEFSubmission.Admitted, BEEFSubmission.emitted, hrun]
      exact ⟨hadmitted, rfl⟩
  | @prepared p q left right hleft hright hsame =>
      have hrun : dispatchBEEF env fw q (some s) now = dispatchBEEF env fw p (some s) now := by
        rw [dispatchBEEF, dispatchBEEF, hleft, hright, hsame.eq_set]
        exact processBEEF_set hrec left _ false
      rw [BEEFSubmission.Admitted, BEEFSubmission.emitted, hrun]
      exact ⟨hadmitted, rfl⟩
  | @offline p q left right alloc hleft hright hsame =>
      have hrun : admitBEEF env fw q (some s) now = admitBEEF env fw p (some s) now := by
        rw [admitBEEF, admitBEEF, hleft, hright, hsame.eq_set]
        simp only [checkBEEF_set hrec]
      rw [BEEFSubmission.Admitted, BEEFSubmission.emitted, hrun]
      exact ⟨hadmitted, rfl⟩

/-- Every datagram of an admitted submission carries the door's count in byte 7,
and two submissions that differ there at most leave in the same bytes. -/
theorem deliverCount_of_door (hdec : DecodeLaws env) (hrec : RecordLaws env)
    (hsplit : SplitLaws env) (hfrag : FragmentLaws env) {sub : BEEFSubmission}
    (hadmitted : sub.Admitted env fw s now st) :
    (∃ n, sub.topics env = some n ∧
      ∀ datagram ∈ sub.emitted env fw s now st, ∃ byte, datagram[7]? = some byte ∧
        (byte.toNat : Int) = doorCount fw.beefPolicy s n) ∧
    (sub.Exact → sub.emitted env fw s now st ≠ []) ∧
    ∀ other, sub.SameButByte7 other → other.Admitted env fw s now st ∧
      other.emitted env fw s now st = sub.emitted env fw s now st := by
  obtain ⟨frame, checked, before, hpassed⟩ := hadmitted.passed hrec hfrag
  obtain ⟨checkContentID, hcheck⟩ := hpassed.check
  obtain ⟨n, htopics, hsize, hbyte, hcount⟩ := checkBEEF_counts hdec hsplit hcheck
  refine ⟨⟨n, hpassed.topics.trans htopics, ?_⟩, ?_, ?_⟩
  · intro datagram hdatagram
    obtain ⟨req, hreq, rfl⟩ := List.mem_map.mp (hpassed.emitted hdatagram)
    exact ⟨_, byte7_of_mem_requests hfrag hsize hbyte hreq, hcount⟩
  · intro hexact
    rw [hpassed.exact hexact, ne_eq, List.map_eq_nil_iff]
    exact requests_beefOut_ne_nil checked (some s) before.chains
  · intro other hsame
    exact hsame.agree hrec hadmitted

end Door

section Sample

open Reference

/-- A policy that would have nine topics delivered for anyone. -/
def generousForwarder : Forwarder :=
  { beefForwarder with beefPolicy := some ⟨fun _ _ => 9, fun _ => 0⟩ }

def twoTopicRecord : Bytes :=
  [0xBE, 0xEF, 1, 2, 2, 0x74, 0x6D, 1, 0x75] ++ spellNat 4 6 ++ sampleObject 1

/-- Its frame with fifteen in byte 7. -/
def twoTopicFraming : Bytes :=
  ((Reference.env.beefMulticastRecord twoTopicRecord 1).getD []).set 7 15

theorem deliverCount_of_door_sample :
    (BEEFSubmission.framed twoTopicFraming).Admitted Reference.env generousForwarder (source 1) 0
        state ∧
      ∀ datagram ∈ (BEEFSubmission.framed twoTopicFraming).emitted Reference.env
          generousForwarder (source 1) 0 state,
        ∃ byte, datagram[7]? = some byte ∧ (byte.toNat : Int) = 2 := by
  have hadmitted : (BEEFSubmission.framed twoTopicFraming).Admitted Reference.env
      generousForwarder (source 1) 0 state := by
    change (processBEEFFrame _ _ _ _ _ _).1 = _
    decide +kernel
  obtain ⟨⟨n, hn, hall⟩, _⟩ :=
    deliverCount_of_door decodeLaws recordLaws splitLaws fragmentLaws hadmitted
  have htwo : (BEEFSubmission.framed twoTopicFraming).topics Reference.env = some 2 := by
    decide +kernel
  obtain rfl := Option.some.inj (hn.symm.trans htwo)
  exact ⟨hadmitted, hall⟩

end Sample

end ShardProxy
