/-
The two ways a BEEF lane sends a record.  In line, `DispatchBEEF` numbers,
encodes and queues the datagrams one after the other; off line, `AdmitBEEF`
reserves the numbers in one block and `FragmentBEEFInto` builds the datagrams
later, elsewhere and in any order.  A lane that mixes the two is followed event
by event next to one that stays in line.
-/
import Mathlib.Data.List.Forall2
import ShardProxy.Reference
import ShardProxy.Routing

namespace ShardProxy

open ByteField Chunks

section Judge

variable (env : Env) (fw : Forwarder)

/-- A record handed to a lane: its bytes and source, the clock when its budget is
charged, and the policy it is judged under. -/
structure Submission where
  record : Bytes
  src : Option NetAddr
  now : Time
  policy : Option BEEFSubmitPolicy

/-- The forwarder with a policy's answers. -/
def Forwarder.under (policy : Option BEEFSubmitPolicy) : Forwarder :=
  { fw with beefPolicy := policy }

/-- A record from a source takes more fragments than their count can say. -/
def Uncountable (checked : CheckedBEEF) (src : Option NetAddr) : Prop :=
  src.isSome ∧ fw.fragments checked.bf.payload ∧ 65535 < fw.fragTotal checked.bf.payload

instance (checked : CheckedBEEF) (src : Option NetAddr) : Decidable (Uncountable fw checked src) :=
  inferInstanceAs (Decidable (_ ∧ _))

/-- What both ways decide first: the frame is checked, charged and claimed, and
its fragments can be counted. -/
def judgeFrame (frame : Bytes) (src : Option NetAddr) (now : Time) : Fw CheckedBEEF := do
  let checked ← checkBEEF env fw frame src now false
  if Uncountable fw checked src then Fw.fail (.packet .fragOverflow) else pure checked

def judge (p : PreparedBEEF) (src : Option NetAddr) (now : Time) : Fw CheckedBEEF :=
  match p.frame with
  | none => Fw.fail (.submission p.result)
  | some frame => judgeFrame env fw frame src now

/-- A record judged under its own policy. -/
def judged (sub : Submission) : Fw CheckedBEEF :=
  judge env (fw.under sub.policy) (prepareBEEF env (fw.under sub.policy) sub.record sub.src)
    sub.src sub.now

variable {env fw} {checked : CheckedBEEF} {src : Option NetAddr} {now : Time}

theorem uncountable_iff :
    Uncountable fw checked src ↔ (beefOut fw checked src).Overflows := by
  cases src with
  | none =>
      refine ⟨fun hover => (by cases hover.1), ?_⟩
      rintro ⟨plan, hplan, _⟩
      obtain ⟨s, hs, _⟩ := splitOf_some hplan
      cases hs
  | some s =>
      constructor
      · rintro ⟨_, hfragments, hover⟩
        exact ⟨_, if_pos hfragments, hover⟩
      · rintro ⟨plan, hplan, hover⟩
        have hfragments := splitOf_fragments fw hplan fun _ => rfl
        obtain ⟨_, _, rfl⟩ := splitOf_some hplan
        exact ⟨rfl, hfragments, hover⟩

/-- A record that passed has a frame that was checked, and a fragment count that
can be told. -/
theorem judge_ok {p : PreparedBEEF} {st before : FwState}
    (hjudge : judge env fw p src now st = (.ok checked, before)) :
    ∃ frame, p.frame = some frame ∧
      checkBEEF env fw frame src now false st = (.ok checked, before) ∧
      ¬ Uncountable fw checked src := by
  rw [judge] at hjudge
  cases hframe : p.frame with
  | none =>
      rw [hframe] at hjudge
      cases hjudge
  | some frame =>
      rw [hframe] at hjudge
      simp only [judgeFrame, Fw.bind_apply] at hjudge
      rcases hcheck : checkBEEF env fw frame src now false st with ⟨drop | found, after⟩
      · rw [hcheck] at hjudge
        cases hjudge
      · rw [hcheck] at hjudge
        by_cases hfound : Uncountable fw found src
        · simp only [hfound, ↓reduceIte] at hjudge
          cases hjudge
        · simp only [hfound, ↓reduceIte] at hjudge
          cases hjudge
          exact ⟨frame, rfl, hcheck, hfound⟩

/-- In line a judged record is sent as any object is. -/
theorem dispatchBEEF_eq_judge (p : PreparedBEEF) :
    dispatchBEEF env fw p src now =
      judge env fw p src now >>= fun checked => (beefOut fw checked src).send env := by
  rw [dispatchBEEF, judge]
  cases p.frame with
  | none => rfl
  | some frame =>
      simp only [processBEEF, judgeFrame, Fw.bind_assoc]
      refine congrArg _ (funext fun checked => ?_)
      rw [emitBEEF_eq]
      split
      · rename_i hover
        funext st
        exact Outgoing.send_overflow _ (uncountable_iff.mp hover) st
      · rfl

variable (env fw checked src) in
/-- The admission of a judged record, with the counters before its numbers are
taken. -/
def admissionOf (chains : Chains) : BEEFAdmission :=
  match src with
  | none =>
      ⟨checked.raw, checked.bf, FixedBytes.zero 16, checked.groupIdx,
        fw.addrFor checked.groupIdx, 0, 0, 0⟩
  | some s =>
      let flow := beefFlow checked.groupIdx s
      let raw := stamped env fw checked.raw flow (lastSeq chains flow)
      if fw.fragments checked.bf.payload then
        ⟨checked.raw, checked.bf, addrToIPv6 s, checked.groupIdx, fw.addrFor checked.groupIdx,
          env.hashKey flow, lastSeq chains flow + 1, fw.fragTotal checked.bf.payload⟩
      else
        ⟨raw, checked.bf, addrToIPv6 s, checked.groupIdx, fw.addrFor checked.groupIdx,
          uint64At raw 40, uint64At raw 48, 0⟩

theorem fragTotal_pos {payload : Bytes} (hfragments : fw.fragments payload) :
    0 < fw.fragTotal payload := by
  refine (lt_chunkCount_iff hfragments.1).mpr ?_
  rw [Nat.zero_mul]
  exact Nat.lt_trans hfragments.1 hfragments.2

/-- A block of numbers leaves the counters as taking them one by one does. -/
theorem advance_eq_reserve (chains : Chains) (key : ChainKey) {n : Nat} (hn : 0 < n) :
    advance chains key n =
      (Dispenser.Registry.reserve ChainKey.stripe chains key n).2 := by
  obtain ⟨m, rfl⟩ := Nat.exists_eq_succ_of_ne_zero (Nat.ne_of_gt hn)
  exact Dispenser.Registry.advance_succ ChainKey.stripe chains key m

theorem run_reserveAdmission (s : NetAddr) (chains : Chains) :
    run (reserveAdmission env fw checked s) chains =
      ⟨admissionOf env fw checked (some s) chains,
        (beefOut fw checked (some s)).chainsAfter chains, []⟩ := by
  by_cases hfragments : fw.fragments checked.bf.payload
  · have hchains := advance_eq_reserve chains (beefFlow checked.groupIdx s)
      (fragTotal_pos hfragments)
    simp only [reserveAdmission, admissionOf, hfragments, ↓reduceIte, run_bind, run_reserveSeq,
      run_pure, List.append_nil, Outgoing.chainsAfter, beefOut, splitOf, Option.map_some]
    exact congrArg (Dispenser.Ran.mk _ · _) hchains.symm
  · simp only [reserveAdmission, admissionOf, hfragments, ↓reduceIte, run_bind, run_stampInPlace,
      run_pure, List.append_nil, Outgoing.chainsAfter, beefOut, splitOf, Option.map_some]
    rfl

variable (env fw checked src) in
/-- Off line a judged record takes its numbers and queues nothing. -/
def takeAdmission : Fw BEEFAdmission := fun st =>
  (.ok (admissionOf env fw checked src st.chains),
    { st with chains := (beefOut fw checked src).chainsAfter st.chains })

theorem admitBEEF_eq_judge (p : PreparedBEEF) :
    admitBEEF env fw p src now =
      judge env fw p src now >>= fun checked => takeAdmission env fw checked src := by
  rw [admitBEEF, judge]
  cases p.frame with
  | none => rfl
  | some frame =>
      simp only [judgeFrame, Fw.bind_assoc]
      refine congrArg _ (funext fun checked => ?_)
      cases src with
      | none =>
          funext st
          by_cases hfragments : fw.fragments checked.bf.payload <;>
            simp [Uncountable, takeAdmission, admissionOf, Outgoing.chainsAfter, beefOut, splitOf,
              hfragments, Fw.pure_bind]
      | some s =>
          by_cases hover : fw.fragments checked.bf.payload ∧ 65535 < fw.fragTotal checked.bf.payload
          · simp only [Uncountable, hover, Option.isSome_some, and_self, ↓reduceIte]
            rfl
          · funext st
            simp only [Uncountable, hover, Option.isSome_some, true_and, ↓reduceIte, Fw.pure_bind,
              takeAdmission, Fw.emit, run_reserveAdmission, List.append_nil]

end Judge

section Blind

/-- A computation that neither reads the worker's queue nor adds to it. -/
def QueueBlind {A : Type} (x : Fw A) : Prop :=
  ∀ st queue, x { st with queue := queue } = ((x st).1, { (x st).2 with queue := queue })

variable {A B : Type} {env : Env} {fw : Forwarder}

theorem queueBlind_gate (check : Except Drop A) : QueueBlind (Fw.gate check) := fun _ _ => rfl

theorem QueueBlind.bind {x : Fw A} {next : A → Fw B} (hx : QueueBlind x)
    (hnext : ∀ result, QueueBlind (next result)) : QueueBlind (x >>= next) := by
  intro st queue
  rw [Fw.bind_apply, hx st queue, Fw.bind_apply]
  rcases x st with ⟨drop | result, after⟩
  · rfl
  · exact hnext result after queue

theorem queueBlind_chargeBudget (src : Option NetAddr) (n : Nat) (now : Time) :
    QueueBlind (chargeBudget env src n now) := by
  intro st queue
  rw [chargeBudget_apply, chargeBudget_apply]

theorem queueBlind_claimIngressIn (dedup : Option DedupRef) (key : Hash32) (frameType : String) :
    QueueBlind (claimIngressIn dedup key frameType) := by
  intro st queue
  cases dedup with
  | none => rfl
  | some ref =>
      by_cases hclaimed : (ref.keySpace, key) ∈ st.stores ref.store <;>
        simp [claimIngressIn, hclaimed]

theorem queueBlind_checkBEEF (raw : Bytes) (src : Option NetAddr) (now : Time)
    (checkContentID : Bool) : QueueBlind (checkBEEF env fw raw src now checkContentID) := by
  refine (queueBlind_gate _).bind fun passed => ?_
  refine (queueBlind_chargeBudget _ _ _).bind fun _ => ?_
  refine (queueBlind_gate _).bind fun _ => ?_
  refine QueueBlind.bind ?_ fun _ _ _ => rfl
  rw [claimBEEFIngress]
  split
  · exact queueBlind_claimIngressIn _ _ _
  · exact queueBlind_claimIngressIn _ _ _

theorem queueBlind_judge (p : PreparedBEEF) (src : Option NetAddr) (now : Time) :
    QueueBlind (judge env fw p src now) := by
  rw [judge]
  split
  · exact fun _ _ => rfl
  · refine (queueBlind_checkBEEF _ _ _ _).bind fun checked => ?_
    split
    · exact fun _ _ => rfl
    · exact fun _ _ => rfl

theorem QueueBlind.queue_eq {x : Fw A} (hx : QueueBlind x) {st after : FwState}
    {result : Except Drop A} (hrun : x st = (result, after)) : after.queue = st.queue := by
  have hsame := congrArg (fun ran => ran.2.queue) (hx st st.queue)
  exact (congrArg (fun ran => ran.2.queue) hrun).symm.trans hsame

end Blind

section Datagrams

variable (env : Env) (fw : Forwarder)

/-- An allocator that returns the length asked for, whatever was in it. -/
def ExactAlloc (alloc : Nat → Nat → Bytes) : Prop :=
  ∀ call n, (alloc call n).length = n

def EnqueueReq.sent (req : EnqueueReq) : Bytes × UDPAddr :=
  (req.raw, req.dst)

/-- An admission stands for these datagrams: their count and length are what it
says, and fragmenting it builds them, all for its destination. -/
structure BEEFAdmission.Makes (a : BEEFAdmission) (datagrams : List (Bytes × UDPAddr)) :
    Prop where
  count : a.datagrams = datagrams.length
  bytes : a.bytes = (datagrams.map fun datagram => datagram.1.length).sum
  dst : ∀ datagram ∈ datagrams, datagram.2 = a.dst
  built : ∀ {alloc}, ExactAlloc alloc →
    fragmentBEEFInto env fw a alloc = .ok (datagrams.map Prod.fst)

variable {env fw}

theorem mapM_ok {A B E : Type} {f : A → Except E B} {g : A → B} {list : List A}
    (hok : ∀ item ∈ list, f item = .ok (g item)) : list.mapM f = .ok (list.map g) := by
  induction list with
  | nil => rfl
  | cons item rest ih =>
      rw [List.mapM_cons, hok item List.mem_cons_self,
        ih fun other hother => hok other (List.mem_cons_of_mem item hother)]
      rfl

/-- Fragment `i` built off line is the datagram the split loop queues. -/
theorem fragmentInto_eq (hlaws : FragmentLaws env) {a : BEEFAdmission}
    (hfragments : fw.fragments a.bf.payload) (hk : a.k = fw.fragTotal a.bf.payload)
    (hmax : a.k ≤ 65535) {alloc : Nat → Nat → Bytes} {i : Nat} (hi : i < a.k)
    (hlength : (alloc i (headerSizeV3 + min fw.fragDataSize
      (a.bf.payload.length - i * fw.fragDataSize))).length =
        headerSizeV3 + min fw.fragDataSize (a.bf.payload.length - i * fw.fragDataSize)) :
    fragmentInto env fw a alloc i =
      .ok (planDatagram env fw (fragmentBEEFPlan fw a.bf a.ip a.groupIdx) a.k i a.hashKey
        (a.firstSeq + UInt64.ofNat i)) := by
  have hplaced := (fragmentBEEFPlan fw a.bf a.ip a.groupIdx).placed hfragments.1 hk hmax hi
    a.hashKey (a.firstSeq + UInt64.ofNat i)
  have hroom := Nat.le_of_eq hlength.symm
  rw [← length_chunk] at hroom
  have hencode := encodePlanned_eq hlaws (fragmentBEEFPlan fw a.bf a.ip a.groupIdx) hplaced hroom
  rw [length_chunk] at hencode
  simp only [fragmentInto, hlength, ne_eq, not_true_eq_false, ↓reduceIte, hencode]

theorem sum_length_planRequests (hlaws : FragmentLaws env) {plan : FragPlan}
    (hfragments : fw.fragments plan.payload) (chains : Chains) :
    ((planRequests env fw plan chains).map fun req => req.raw.length).sum =
      fw.fragTotal plan.payload * headerSizeV3 + plan.payload.length := by
  have hlength : (planRequests env fw plan chains).map (fun req => req.raw.length) =
      (List.range (fw.fragTotal plan.payload)).map fun i =>
        headerSizeV3 + (chunk plan.payload fw.fragDataSize i).length := by
    rw [planRequests, List.map_map]
    exact List.map_congr_left fun i _ => length_planDatagram hlaws _ _ _ _
  rw [hlength, List.sum_map_add, List.map_const', List.sum_replicate, List.length_range,
    smul_eq_mul]
  exact congrArg _ (sum_length_chunks plan.payload hfragments.1)

/-- Off line an admission is split by the plan the in-line path splits by. -/
theorem fragmentBEEFInto_split (hlaws : FragmentLaws env) {checked : CheckedBEEF} {s : NetAddr}
    (hfragments : fw.fragments checked.bf.payload)
    (hmax : fw.fragTotal checked.bf.payload ≤ 65535) (chains : Chains)
    {alloc : Nat → Nat → Bytes} (hexact : ExactAlloc alloc) :
    fragmentBEEFInto env fw (admissionOf env fw checked (some s) chains) alloc =
      .ok ((planRequests env fw
        (fragmentBEEFPlan fw checked.bf (addrToIPv6 s) checked.groupIdx) chains).map
          EnqueueReq.raw) := by
  have hk := Nat.ne_of_gt (fragTotal_pos hfragments)
  simp only [admissionOf, hfragments, ↓reduceIte, fragmentBEEFInto, hk, planRequests,
    List.map_map]
  apply mapM_ok
  intro i hi
  exact fragmentInto_eq hlaws hfragments rfl hmax (List.mem_range.mp hi) (hexact i _)

/-- An admission makes the datagrams the in-line path queues. -/
theorem admissionOf_makes (hlaws : FragmentLaws env) {checked : CheckedBEEF}
    {src : Option NetAddr} (hfit : ¬ Uncountable fw checked src) (chains : Chains) :
    (admissionOf env fw checked src chains).Makes env fw
      (((beefOut fw checked src).requests env chains).map EnqueueReq.sent) := by
  have hwhole : ∀ {a : BEEFAdmission} {raw : Bytes}, a.k = 0 → a.raw = raw →
      a.Makes env fw [(raw, a.dst)] := by
    rintro a raw hk rfl
    refine ⟨?_, ?_, ?_, ?_⟩
    · simp [BEEFAdmission.datagrams, hk]
    · simp [BEEFAdmission.bytes, hk]
    · simp
    · intro alloc hexact
      simp [fragmentBEEFInto, hk, hexact 0 a.raw.length]
  cases src with
  | none =>
      have hsplit : (beefOut fw checked none).split = none := by
        simp [beefOut, splitOf]
      rw [Outgoing.requests, hsplit]
      exact hwhole rfl rfl
  | some s =>
      by_cases hfragments : fw.fragments checked.bf.payload
      · have hsplit : (beefOut fw checked (some s)).split =
            some (fragmentBEEFPlan fw checked.bf (addrToIPv6 s) checked.groupIdx) :=
          if_pos hfragments
        have hmax : fw.fragTotal checked.bf.payload ≤ 65535 :=
          Nat.le_of_not_lt fun hover => hfit ⟨rfl, hfragments, hover⟩
        have hpos := fragTotal_pos hfragments
        rw [Outgoing.requests, hsplit]
        refine ⟨?_, ?_, ?_, ?_⟩
        · simp [admissionOf, hfragments, BEEFAdmission.datagrams, hpos, planRequests,
            fragmentBEEFPlan]
        · rw [List.map_map]
          refine Eq.trans ?_ (sum_length_planRequests hlaws hfragments chains).symm
          simp [admissionOf, hfragments, BEEFAdmission.bytes, hpos, fragmentBEEFPlan]
        · intro datagram hdatagram
          obtain ⟨req, hreq, rfl⟩ := List.mem_map.mp hdatagram
          refine (dst_of_mem_planRequests hreq).trans ?_
          simp only [admissionOf, hfragments, ↓reduceIte]
          rfl
        · intro alloc hexact
          rw [fragmentBEEFInto_split hlaws hfragments hmax chains hexact, List.map_map]
          rfl
      · have hsplit : (beefOut fw checked (some s)).split = none := if_neg hfragments
        rw [Outgoing.requests, hsplit]
        simp only [admissionOf, hfragments, ↓reduceIte]
        exact hwhole rfl rfl

end Datagrams

section Lane

variable (env : Env) (fw : Forwarder)

/-- What has become of a record: dropped, with what was queued for it all the
same; queued; admitted; or admitted and fragmented. -/
inductive LaneRecord where
  | dropped (drop : Drop) (datagrams : List (Bytes × UDPAddr))
  | enqueued (datagrams : List (Bytes × UDPAddr))
  | admitted (a : BEEFAdmission)
  | fragmented (a : BEEFAdmission) (result : Except FragmentIntoError (List Bytes))

/-- A lane: the forwarder and the records so far, in the order they came. -/
structure Lane where
  st : FwState
  records : List LaneRecord

/-- What a lane does: a record in line, a record off line, or the fragments of an
earlier record. -/
inductive LaneEvent where
  | inline (sub : Submission)
  | offline (sub : Submission)
  | fragment (index : Nat) (alloc : Nat → Nat → Bytes)

/-- The datagrams queued between two states. -/
def sentSince (before after : FwState) : List (Bytes × UDPAddr) :=
  (after.queue.drop before.queue.length).map EnqueueReq.sent

/-- `PrepareBEEF`, then `DispatchBEEF` -/
def runInline (sub : Submission) (st : FwState) : LaneRecord × FwState :=
  let fw := fw.under sub.policy
  let (result, after) :=
    dispatchBEEF env fw (prepareBEEF env fw sub.record sub.src) sub.src sub.now st
  match result with
  | .error drop => (.dropped drop (sentSince st after), after)
  | .ok _ => (.enqueued (sentSince st after), after)

/-- `PrepareBEEF`, then `AdmitBEEF` -/
def runOffline (sub : Submission) (st : FwState) : LaneRecord × FwState :=
  let fw := fw.under sub.policy
  let (result, after) :=
    admitBEEF env fw (prepareBEEF env fw sub.record sub.src) sub.src sub.now st
  match result with
  | .error drop => (.dropped drop (sentSince st after), after)
  | .ok a => (.admitted a, after)

/-- `FragmentBEEFInto` of an admission; other records have none. -/
def LaneRecord.fragment (alloc : Nat → Nat → Bytes) : LaneRecord → LaneRecord
  | .admitted a => .fragmented a (fragmentBEEFInto env fw a alloc)
  | .fragmented a _ => .fragmented a (fragmentBEEFInto env fw a alloc)
  | record => record

def Lane.step (lane : Lane) : LaneEvent → Lane
  | .inline sub =>
      let (record, st) := runInline env fw sub lane.st
      ⟨st, lane.records ++ [record]⟩
  | .offline sub =>
      let (record, st) := runOffline env fw sub lane.st
      ⟨st, lane.records ++ [record]⟩
  | .fragment index alloc =>
      { lane with records := lane.records.modify index (LaneRecord.fragment env fw alloc) }

def Lane.run (lane : Lane) (events : List LaneEvent) : Lane :=
  events.foldl (Lane.step env fw) lane

/-- The record an event brings. -/
def LaneEvent.submission : LaneEvent → Option Submission
  | .inline sub => some sub
  | .offline sub => some sub
  | .fragment _ _ => none

/-- Fragments are built in memory of the length asked for. -/
def LaneEvent.Exact : LaneEvent → Prop
  | .fragment _ alloc => ExactAlloc alloc
  | _ => True

/-- Two states with the same counters, claims and budgets. -/
structure Agrees (left right : FwState) : Prop where
  chains : left.chains = right.chains
  stores : left.stores = right.stores
  beefLimit : left.beefLimit = right.beefLimit
  bridging : left.bridging = right.bridging
  coal : left.coal = right.coal

/-- A record of a lane stands for what the in-line lane queued for it: both are
dropped alike with nothing queued, or its datagrams are those datagrams. -/
inductive LaneRecord.Follows : LaneRecord → LaneRecord → Prop where
  | dropped (drop : Drop) : Follows (.dropped drop []) (.dropped drop [])
  | enqueued (datagrams : List (Bytes × UDPAddr)) :
      Follows (.enqueued datagrams) (.enqueued datagrams)
  | admitted {a : BEEFAdmission} {datagrams : List (Bytes × UDPAddr)}
      (hmakes : a.Makes env fw datagrams) : Follows (.enqueued datagrams) (.admitted a)
  | fragmented {a : BEEFAdmission} {datagrams : List (Bytes × UDPAddr)}
      (hmakes : a.Makes env fw datagrams) :
      Follows (.enqueued datagrams) (.fragmented a (.ok (datagrams.map Prod.fst)))

/-- A lane follows an in-line one: the forwarders agree and so does each record. -/
structure Lane.Follows (inline lane : Lane) : Prop where
  agrees : Agrees inline.st lane.st
  records : List.Forall₂ (LaneRecord.Follows env fw) inline.records lane.records

variable {env fw}

theorem Agrees.refl (st : FwState) : Agrees st st := ⟨rfl, rfl, rfl, rfl, rfl⟩

/-- Agreeing states differ in their queues only. -/
theorem Agrees.eq {left right : FwState} (hagrees : Agrees left right) :
    right = { left with queue := right.queue } := by
  obtain ⟨hchains, hstores, hlimit, hbridging, hcoal⟩ := hagrees
  ext1
  · exact hchains.symm
  · exact hstores.symm
  · exact hlimit.symm
  · exact hbridging.symm
  · rfl
  · exact hcoal.symm

theorem Agrees.of_queue (st : FwState) (left right : List EnqueueReq) :
    Agrees { st with queue := left } { st with queue := right } := ⟨rfl, rfl, rfl, rfl, rfl⟩

variable (env fw) in
/-- Both ways come to one verdict from agreeing states. -/
theorem judged_agrees {left right : FwState} (hagrees : Agrees left right) (sub : Submission) :
    judged env fw sub right =
      ((judged env fw sub left).1, { (judged env fw sub left).2 with queue := right.queue }) := by
  have hblind : judged env fw sub { left with queue := right.queue } = _ :=
    queueBlind_judge _ _ _ left right.queue
  rwa [← hagrees.eq] at hblind

theorem sentSince_same {before after : FwState} (hqueue : after.queue = before.queue) :
    sentSince before after = [] := by
  rw [sentSince, hqueue, List.drop_length, List.map_nil]

theorem sentSince_append {before after : FwState} {reqs : List EnqueueReq}
    (hqueue : after.queue = before.queue ++ reqs) :
    sentSince before after = reqs.map EnqueueReq.sent := by
  rw [sentSince, hqueue, List.drop_left]

section Record

variable {sub : Submission} {st before : FwState}

theorem runInline_of_drop {drop : Drop}
    (hjudge : judged env fw sub st = (.error drop, before)) :
    runInline env fw sub st = (.dropped drop [], before) := by
  have hqueue := (queueBlind_judge _ _ _).queue_eq hjudge
  rw [judged] at hjudge
  rw [runInline]
  simp only [dispatchBEEF_eq_judge, Fw.bind_of_error hjudge, sentSince_same hqueue]

theorem runOffline_of_drop {drop : Drop}
    (hjudge : judged env fw sub st = (.error drop, before)) :
    runOffline env fw sub st = (.dropped drop [], before) := by
  have hqueue := (queueBlind_judge _ _ _).queue_eq hjudge
  rw [judged] at hjudge
  rw [runOffline]
  simp only [admitBEEF_eq_judge, Fw.bind_of_error hjudge, sentSince_same hqueue]

theorem runInline_of_ok (hlaws : FragmentLaws env) {checked : CheckedBEEF}
    (hjudge : judged env fw sub st = (.ok checked, before)) :
    runInline env fw sub st =
      (.enqueued (((beefOut (fw.under sub.policy) checked sub.src).requests env
          before.chains).map EnqueueReq.sent),
        { before with
          chains := (beefOut (fw.under sub.policy) checked sub.src).chainsAfter before.chains
          queue := before.queue ++
            (beefOut (fw.under sub.policy) checked sub.src).requests env before.chains }) := by
  have hqueue := (queueBlind_judge _ _ _).queue_eq hjudge
  obtain ⟨_, _, _, hcountable⟩ := judge_ok hjudge
  have hfit : ¬ (beefOut (fw.under sub.policy) checked sub.src).Overflows :=
    fun hover => hcountable (uncountable_iff.mpr hover)
  rw [judged] at hjudge
  rw [runInline]
  simp only [dispatchBEEF_eq_judge, Fw.bind_apply, hjudge, Outgoing.send_apply _ hlaws _ hfit]
  rw [sentSince_append (by rw [hqueue])]

theorem runOffline_of_ok {checked : CheckedBEEF}
    (hjudge : judged env fw sub st = (.ok checked, before)) :
    runOffline env fw sub st =
      (.admitted (admissionOf env (fw.under sub.policy) checked sub.src before.chains),
        { before with
          chains := (beefOut (fw.under sub.policy) checked sub.src).chainsAfter
            before.chains }) := by
  rw [judged] at hjudge
  rw [runOffline]
  simp only [admitBEEF_eq_judge, Fw.bind_apply, hjudge, takeAdmission]

end Record

/-- Only the size of a fragment matters to the off-line build. -/
theorem BEEFAdmission.Makes.of_under {a : BEEFAdmission} {policy : Option BEEFSubmitPolicy}
    {datagrams : List (Bytes × UDPAddr)} (hmakes : a.Makes env (fw.under policy) datagrams) :
    a.Makes env fw datagrams :=
  ⟨hmakes.count, hmakes.bytes, hmakes.dst, hmakes.built⟩

/-- One record, in line on one side and either way on the other. -/
theorem record_follows (hlaws : FragmentLaws env) (sub : Submission) {left right : FwState}
    (hagrees : Agrees left right) :
    (LaneRecord.Follows env fw (runInline env fw sub left).1 (runInline env fw sub right).1 ∧
      Agrees (runInline env fw sub left).2 (runInline env fw sub right).2) ∧
    LaneRecord.Follows env fw (runInline env fw sub left).1 (runOffline env fw sub right).1 ∧
      Agrees (runInline env fw sub left).2 (runOffline env fw sub right).2 := by
  have hright := judged_agrees env fw hagrees sub
  cases hjudge : judged env fw sub left with
  | mk result before =>
      rw [hjudge] at hright
      cases result with
      | error drop =>
          rw [runInline_of_drop hjudge, runInline_of_drop hright, runOffline_of_drop hright]
          have hsame := Agrees.of_queue before before.queue right.queue
          exact ⟨⟨.dropped drop, hsame⟩, .dropped drop, hsame⟩
      | ok checked =>
          rw [runInline_of_ok hlaws hjudge, runInline_of_ok hlaws hright, runOffline_of_ok hright]
          refine ⟨⟨.enqueued _, ⟨rfl, rfl, rfl, rfl, rfl⟩⟩, .admitted ?_, ⟨rfl, rfl, rfl, rfl, rfl⟩⟩
          obtain ⟨_, _, _, hcountable⟩ := judge_ok hjudge
          exact (admissionOf_makes hlaws hcountable before.chains).of_under

/-- Building the datagrams of a record again changes none of them. -/
theorem LaneRecord.Follows.fragment {inline record : LaneRecord}
    (hfollows : LaneRecord.Follows env fw inline record) {alloc : Nat → Nat → Bytes}
    (hexact : ExactAlloc alloc) :
    LaneRecord.Follows env fw inline (record.fragment env fw alloc) := by
  cases hfollows with
  | dropped drop => exact .dropped drop
  | enqueued datagrams => exact .enqueued datagrams
  | admitted hmakes =>
      rw [LaneRecord.fragment, hmakes.built hexact]
      exact .fragmented hmakes
  | fragmented hmakes =>
      rw [LaneRecord.fragment, hmakes.built hexact]
      exact .fragmented hmakes

theorem forall₂_modify {A B : Type} {R : A → B → Prop} {left : List A} {right : List B}
    (hpairs : List.Forall₂ R left right) {f : B → B} (hf : ∀ {a b}, R a b → R a (f b))
    (index : Nat) : List.Forall₂ R left (right.modify index f) := by
  induction hpairs generalizing index with
  | nil =>
      rw [List.modify_nil]
      exact .nil
  | cons hhead htail ih =>
      cases index with
      | zero =>
          rw [List.modify_zero_cons]
          exact .cons (hf hhead) htail
      | succ index =>
          rw [List.modify_succ_cons]
          exact .cons hhead (ih index)

/-- One event of a lane, next to the in-line lane that runs only its record. -/
theorem Lane.Follows.step (hlaws : FragmentLaws env) {inline lane : Lane}
    (hfollows : inline.Follows env fw lane) {event : LaneEvent} (hexact : event.Exact) :
    (inline.run env fw (event.submission.toList.map .inline)).Follows env fw
      (lane.step env fw event) := by
  obtain ⟨hagrees, hrecords⟩ := hfollows
  cases event with
  | inline sub =>
      obtain ⟨⟨hrecord, hafter⟩, _⟩ := record_follows hlaws sub hagrees
      exact ⟨hafter, List.rel_append hrecords (.cons hrecord .nil)⟩
  | offline sub =>
      obtain ⟨_, hrecord, hafter⟩ := record_follows hlaws sub hagrees
      exact ⟨hafter, List.rel_append hrecords (.cons hrecord .nil)⟩
  | fragment index alloc =>
      exact ⟨hagrees, forall₂_modify hrecords (fun h => h.fragment hexact) index⟩

theorem Lane.run_append (lane : Lane) (first second : List LaneEvent) :
    lane.run env fw (first ++ second) = (lane.run env fw first).run env fw second :=
  List.foldl_append

/-- A whole schedule of a lane, next to its records in line. -/
theorem Lane.Follows.run (hlaws : FragmentLaws env) {inline lane : Lane}
    (hfollows : inline.Follows env fw lane) {events : List LaneEvent}
    (hexact : ∀ event ∈ events, event.Exact) :
    (inline.run env fw ((events.filterMap LaneEvent.submission).map .inline)).Follows env fw
      (lane.run env fw events) := by
  induction events generalizing inline lane with
  | nil => exact hfollows
  | cons event rest ih =>
      have hstep := hfollows.step hlaws (hexact event List.mem_cons_self)
      have hrest := ih hstep fun other hother => hexact other (List.mem_cons_of_mem event hother)
      have hevents : (event :: rest).filterMap LaneEvent.submission =
          event.submission.toList ++ rest.filterMap LaneEvent.submission := by
        cases event <;> rfl
      rw [hevents, List.map_append, Lane.run_append]
      exact hrest

/-- Whatever records a lane sends off line, and in whatever order their fragments
are built, each record is dropped or becomes the datagrams it becomes in line,
and the counters, claims and budgets end as they do in line. -/
theorem offline_follows_inline (hlaws : FragmentLaws env) (st : FwState)
    {events : List LaneEvent} (hexact : ∀ event ∈ events, event.Exact) :
    (Lane.run env fw ⟨st, []⟩ ((events.filterMap LaneEvent.submission).map .inline)).Follows
      env fw (Lane.run env fw ⟨st, []⟩ events) :=
  Lane.Follows.run hlaws ⟨Agrees.refl st, .nil⟩ hexact

end Lane

section Sample

open Reference

/-- Three records of one source: the second in line, the others off line and built
last first. -/
def sampleSubmission (byte : UInt8) : Submission :=
  ⟨sampleRecord (sampleObject byte), some (source 1), 0, none⟩

def sampleSchedule : List LaneEvent :=
  [.offline (sampleSubmission 1), .inline (sampleSubmission 2), .offline (sampleSubmission 3),
    .fragment 2 fun _ n => List.replicate n 7, .fragment 0 fun _ n => List.replicate n 0]

theorem offline_follows_inline_sample :
    (Lane.run Reference.env beefForwarder ⟨state, []⟩
        [.inline (sampleSubmission 1)]).st.queue.length = 2 ∧
      (Lane.run Reference.env beefForwarder ⟨state, []⟩
        ([1, 2, 3].map fun byte => .inline (sampleSubmission byte))).Follows Reference.env
          beefForwarder (Lane.run Reference.env beefForwarder ⟨state, []⟩ sampleSchedule) := by
  have hexact : ∀ event ∈ sampleSchedule, event.Exact := by
    simp [sampleSchedule, LaneEvent.Exact, ExactAlloc]
  have hrecords : (sampleSchedule.filterMap LaneEvent.submission).map LaneEvent.inline =
      [1, 2, 3].map fun byte => .inline (sampleSubmission byte) := rfl
  refine ⟨by decide +kernel, ?_⟩
  rw [← hrecords]
  exact offline_follows_inline fragmentLaws state hexact

end Sample

end ShardProxy
