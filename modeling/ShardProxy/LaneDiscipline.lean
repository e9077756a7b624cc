/-
What an emitting operation does, however its steps are answered.  It asks for one claim
at most, the one of the object it carries; it queues and buffers nothing of that object
before the claim is granted; and once the claim is granted it sends all of the object,
or drops it as one of too many fragments.  The numbers and engines it meets on the way
are any that other lanes may leave it.
-/
import ShardProxy.LaneScripts

namespace ShardProxy

open ByteField Chunks Dispenser AtomicOps

/-- What an operation has done: the claim it asked for with the answer, the datagrams it
queued and the members it buffered. -/
structure Progress where
  claim : Option (DedupRef × Hash32 × ClaimAnswer)
  sent : List EnqueueReq
  waiting : List (ChainKey × Member)

def Progress.start : Progress :=
  ⟨none, [], []⟩

/-- The claim was asked for and not refused. -/
def Progress.Granted (m : Progress) (claim : DedupRef × Hash32) : Prop :=
  ∃ answer, m.claim = some (claim.1, claim.2, answer) ∧ answer ≠ .lost

def Progress.sees (m : Progress) : Exchange LaneOp LaneOp.Answer → Progress
  | ⟨.claim ref id, answer⟩ => { m with claim := some (ref, id, answer) }
  | ⟨.enqueue req, _⟩ => { m with sent := m.sent ++ [req] }
  | ⟨.addMember flow member, _⟩ => { m with waiting := m.waiting ++ [(flow, member)] }
  | _ => m

/-- One claim at most, and where there is one to ask for, nothing goes out before it. -/
def Progress.allows (offer : Option (DedupRef × Hash32)) (m : Progress) : LaneOp → Prop
  | .claim ref id => offer = some (ref, id) ∧ m = .start
  | .enqueue _ => ∀ claim, offer = some claim → m.Granted claim
  | .addMember _ _ => ∀ claim, offer = some claim → m.Granted claim
  | _ => True

def discipline (offer : Option (DedupRef × Hash32)) : Monitor LaneOp LaneOp.Answer Progress :=
  ⟨Progress.allows offer, Progress.sees⟩

/-- However it is answered, the program keeps the discipline and ends as it should. -/
def LaneProg.Follows {A : Type} (x : LaneProg A) (offer : Option (DedupRef × Hash32))
    (ends : Except Drop A → Progress → Prop) (m : Progress) : Prop :=
  Script.Follows (discipline offer) ends x m

namespace LaneProg

section Rules

variable {A B : Type} {offer : Option (DedupRef × Hash32)} {m : Progress}

theorem Follows.mono {ends ends' : Except Drop A → Progress → Prop} {x : LaneProg A}
    (hx : x.Follows offer ends m) (hends : ∀ result m, ends result m → ends' result m) :
    x.Follows offer ends' m :=
  Script.Follows.mono hx hends

theorem Follows.bind {middle : Except Drop A → Progress → Prop}
    {ends : Except Drop B → Progress → Prop} {x : LaneProg A} {next : A → LaneProg B}
    (hx : x.Follows offer middle m)
    (hok : ∀ result m, middle (.ok result) m → (next result).Follows offer ends m)
    (herror : ∀ drop m, middle (.error drop) m → ends (.error drop) m) :
    (x >>= next).Follows offer ends m := by
  apply Script.Follows.bind hx
  rintro (drop | result) m hmiddle
  · exact herror drop m hmiddle
  · exact hok result m hmiddle

theorem follows_pure {ends : Except Drop A → Progress → Prop} {result : A}
    (hends : ends (.ok result) m) : (pure result : LaneProg A).Follows offer ends m := hends

theorem follows_fail {ends : Except Drop A → Progress → Prop} {drop : Drop}
    (hends : ends (.error drop) m) : (fail drop : LaneProg A).Follows offer ends m := hends

/-- A check that fails ends the program, one that passes leaves it as it is. -/
theorem follows_gate {ends : Except Drop B → Progress → Prop} {check : Except Drop A}
    {next : A → LaneProg B} (herror : ∀ drop, check = .error drop → ends (.error drop) m)
    (hok : ∀ result, check = .ok result → (next result).Follows offer ends m) :
    (gate check >>= next).Follows offer ends m := by
  cases check with
  | error drop => exact herror drop rfl
  | ok result => exact hok result rfl

/-- An answer that shows nothing of the object leaves what is known as it is. -/
theorem follows_loadBridging {ends : Except Drop A → Progress → Prop}
    {next : Option Engine → LaneProg A}
    (hnext : ∀ bridging, (next bridging).Follows offer ends m) :
    (loadBridging >>= next).Follows offer ends m :=
  ⟨trivial, hnext⟩

theorem follows_coalArmed {ends : Except Drop A → Progress → Prop} {next : Bool → LaneProg A}
    (hnext : ∀ armed, (next armed).Follows offer ends m) :
    (coalArmed >>= next).Follows offer ends m :=
  ⟨trivial, hnext⟩

theorem follows_takeMembers {ends : Except Drop A → Progress → Prop}
    {next : Option CoalBuffer → LaneProg A}
    (hnext : ∀ coal, (next coal).Follows offer ends m) :
    (takeMembers >>= next).Follows offer ends m :=
  ⟨trivial, hnext⟩

theorem follows_takeQueue {ends : Except Drop A → Progress → Prop}
    {next : List EnqueueReq → LaneProg A}
    (hnext : ∀ queue, (next queue).Follows offer ends m) :
    (takeQueue >>= next).Follows offer ends m :=
  ⟨trivial, hnext⟩

theorem follows_chargeBudget {ends : Except Drop A → Progress → Prop} {src : Option NetAddr}
    {n : Nat} {now : Time} {next : Unit → LaneProg A}
    (hrefused : ∀ reason, ends (.error (.packet reason)) m)
    (hnext : (next ()).Follows offer ends m) :
    (chargeBudget src n now >>= next).Follows offer ends m := by
  refine ⟨trivial, fun decision => ?_⟩
  cases (decision : RateDecision) with
  | allow => exact hnext
  | denySource => exact hrefused _
  | denyPlane => exact hrefused _

theorem follows_addMember {ends : Except Drop Unit → Progress → Prop} {flow : ChainKey}
    {member : Member} (hgranted : ∀ claim, offer = some claim → m.Granted claim)
    (hends : ends (.ok ()) { m with waiting := m.waiting ++ [(flow, member)] }) :
    (addMember flow member).Follows offer ends m :=
  ⟨hgranted, fun _ => hends⟩

/-- A program of the counters sends what it may send with some numbers. -/
theorem follows_emit (hgranted : ∀ claim, offer = some claim → m.Granted claim)
    (prog : Emit A) :
    (emit prog).Follows offer (fun result m' => ∃ a outputs, result = .ok a ∧
      prog.Emits a outputs ∧ m' = { m with sent := m.sent ++ outputs }) m := by
  induction prog generalizing m with
  | done result => exact ⟨result, [], rfl, ⟨rfl, rfl⟩, by rw [List.append_nil]⟩
  | reserve key n next ih =>
      refine ⟨trivial, fun ref => ⟨trivial, fun after => ?_⟩⟩
      refine Follows.mono (ih _ hgranted) ?_
      rintro result m' ⟨a, outputs, hresult, hemits, hm'⟩
      exact ⟨a, outputs, hresult, ⟨_, hemits⟩, hm'⟩
  | emit req next ih =>
      refine ⟨hgranted, fun _ => ?_⟩
      refine Follows.mono (ih (m := { m with sent := m.sent ++ [req] }) hgranted) ?_
      rintro result m' ⟨a, outputs, hresult, hemits, rfl⟩
      refine ⟨a, req :: outputs, hresult, ⟨outputs, rfl, hemits⟩, ?_⟩
      rw [List.append_assoc, List.singleton_append]

end Rules

end LaneProg

section Numbers

variable {env : Env} {fw : Forwarder}

/-- Whatever number it draws, stamping leaves a frame a flow could have stamped. -/
theorem stampInPlace_emits {raw sent : Bytes} {flow : ChainKey} {outputs : List EnqueueReq}
    (hemits : (stampInPlace env fw raw flow).Emits sent outputs) :
    outputs = [] ∧ ∃ last, sent = stamped env fw raw flow last := by
  rw [stampInPlace] at hemits
  by_cases hseq : uint64At raw 48 = 0
  · rw [if_pos hseq] at hemits
    obtain ⟨first, rfl, rfl⟩ := hemits
    refine ⟨rfl, first - 1, ?_⟩
    rw [stamped, if_pos hseq, UInt64.sub_add_cancel]
  · rw [if_neg hseq] at hemits
    by_cases hkey : uint64At raw 40 = 0 ∨ fw.stampSource = true
    · rw [if_pos hkey] at hemits
      refine ⟨hemits.2, 0, ?_⟩
      rw [stamped, if_neg hseq, if_pos hkey]
      exact hemits.1
    · rw [if_neg hkey] at hemits
      refine ⟨hemits.2, 0, ?_⟩
      rw [stamped, if_neg hseq, if_neg hkey]
      exact hemits.1

theorem sendAll_emits {reqs outputs : List EnqueueReq} {result : PUnit}
    (hemits : (sendAll reqs).Emits result outputs) : outputs = reqs := by
  induction reqs generalizing outputs with
  | nil => exact hemits.2
  | cons req rest ih =>
      obtain ⟨tail, rfl, hrest⟩ := hemits
      rw [ih hrest]

/-- Fragment `i` of a plan under some number. -/
def FragPlan.Numbered (env : Env) (fw : Forwarder) (plan : FragPlan) (i : Nat)
    (req : EnqueueReq) : Prop :=
  ∃ seqNum, req = plan.enqueue
    (planDatagram env fw plan (fw.fragTotal plan.payload) i (env.hashKey plan.flow) seqNum)

/-- The split loop sends one fragment for each of its indices. -/
theorem fragmentLoop_emits (hlaws : FragmentLaws env) {plan : FragPlan}
    (hsize : 0 < fw.fragDataSize) (hmax : fw.fragTotal plan.payload ≤ 65535)
    {indices : List Nat} (hindices : ∀ i ∈ indices, i < fw.fragTotal plan.payload)
    {result : PUnit} {outputs : List EnqueueReq}
    (hemits : (fragmentLoop env fw plan (fw.fragTotal plan.payload) indices).Emits result
      outputs) :
    List.Forall₂ (plan.Numbered env fw) indices outputs := by
  induction indices generalizing outputs with
  | nil =>
      rw [hemits.2]
      exact .nil
  | cons i rest ih =>
      obtain ⟨seqNum, hemits⟩ := hemits
      have hplaced := plan.placed hsize rfl hmax (hindices i List.mem_cons_self)
        (env.hashKey plan.flow) seqNum
      have hbuf : headerSizeV3 + (chunk plan.payload fw.fragDataSize i).length ≤
          (env.poolBuffer (headerSizeV3 + fw.fragDataSize) i).length := by
        rw [env.length_poolBuffer]
        exact Nat.add_le_add_left (length_chunk_le plan i) _
      have hparts : (sendEncoded plan.enqueue (encodePlanned env fw plan
          (env.poolBuffer (headerSizeV3 + fw.fragDataSize) i) i (fw.fragTotal plan.payload)
          (env.hashKey plan.flow) seqNum) >>= fun _ =>
            fragmentLoop env fw plan (fw.fragTotal plan.payload) rest).Emits result outputs :=
        hemits
      rw [encodePlanned_eq hlaws plan hplaced hbuf] at hparts
      obtain ⟨_, first, second, ⟨none, rfl, _, rfl⟩, hrest, rfl⟩ := Prog.Emits.of_bind hparts
      exact .cons ⟨seqNum, rfl⟩ (ih (fun j hj => hindices j (List.mem_cons_of_mem i hj)) hrest)

/-- A piece as it would be on a fresh flow: a reassembler does not look at the number. -/
def renumber (piece : FragmentFrame) : FragmentFrame :=
  { piece with
    args := { piece.args with
      seqNum := 0 + 1 + UInt64.ofNat piece.args.fragIndex.toNat } }

theorem reassemble_renumber (pieces : List FragmentFrame) :
    reassemble (pieces.map renumber) = reassemble pieces := by
  cases pieces with
  | nil => rfl
  | cons first rest =>
      simp only [reassemble, List.map_cons, List.map_map]
      rfl

/-- The queued fragments put a payload back together under its identifier, in whatever
order they arrive. -/
def Rebuilds (env : Env) (id : Hash32) (payload : Bytes) (reqs : List EnqueueReq) : Prop :=
  ∃ (pieces : List FragmentFrame) (whole : Reassembled),
    reqs.map (fun req => env.decodeFragment req.raw) = pieces.map some ∧
    (∀ arrived : List FragmentFrame, arrived.Perm pieces → reassemble arrived = some whole) ∧
    whole.id = id ∧ whole.payload = payload

/-- Numbered fragments decode to the plan's pieces, up to their numbers. -/
theorem FragPlan.decode_numbered (hlaws : FragmentLaws env) {plan : FragPlan}
    (hsize : 0 < fw.fragDataSize) (hmax : fw.fragTotal plan.payload ≤ 65535)
    {indices : List Nat} (hindices : ∀ i ∈ indices, i < fw.fragTotal plan.payload)
    {reqs : List EnqueueReq} (hreqs : List.Forall₂ (plan.Numbered env fw) indices reqs) :
    ∃ pieces : List FragmentFrame,
      reqs.map (fun req => env.decodeFragment req.raw) = pieces.map some ∧
      pieces.map renumber = indices.map (plan.piece env fw 0) := by
  induction hreqs with
  | nil => exact ⟨[], rfl, rfl⟩
  | @cons i req rest reqs hnumbered _ ih =>
      obtain ⟨seqNum, rfl⟩ := hnumbered
      obtain ⟨pieces, hdecoded, hpieces⟩ := ih fun j hj => hindices j (List.mem_cons_of_mem i hj)
      have hi := hindices i List.mem_cons_self
      have hplaced := plan.placed hsize rfl hmax hi (env.hashKey plan.flow) seqNum
      have hindex : (UInt16.ofNat i).toNat = i :=
        UInt16.toNat_ofNat_of_lt' (show i < 2 ^ 16 by omega)
      refine ⟨⟨plan.args fw i (fw.fragTotal plan.payload) (env.hashKey plan.flow) seqNum,
        plan.byte7.getD 0⟩ :: pieces, ?_, ?_⟩
      · rw [List.map_cons, List.map_cons, hdecoded]
        exact congrArg (· :: pieces.map some) (hlaws.decode hplaced plan.byte7)
      · rw [List.map_cons, List.map_cons, hpieces]
        refine congrArg (· :: rest.map (plan.piece env fw 0)) ?_
        simp only [renumber, FragPlan.piece, FragPlan.args, hindex]

theorem FragPlan.rebuilds (hlaws : FragmentLaws env) {plan : FragPlan}
    (hfragments : fw.fragments plan.payload) (hmax : fw.fragTotal plan.payload ≤ 65535)
    (hlength : plan.payload.length < 2 ^ 32) {reqs : List EnqueueReq}
    (hreqs : List.Forall₂ (plan.Numbered env fw)
      (List.range (fw.fragTotal plan.payload)) reqs) :
    Rebuilds env plan.id plan.payload reqs := by
  obtain ⟨pieces, hdecoded, hpieces⟩ := FragPlan.decode_numbered hlaws hfragments.1 hmax
    (fun i hi => List.mem_range.mp hi) hreqs
  refine ⟨pieces, plan.whole, hdecoded, fun arrived hperm => ?_, rfl, rfl⟩
  rw [← reassemble_renumber]
  exact plan.reassemble_pieces hfragments hmax hlength (hpieces ▸ hperm.map renumber)

end Numbers

section Sending

variable (env : Env) (fw : Forwarder)

/-- An object goes out in full: as its whole frame, once or for two layouts, or in
fragments. -/
inductive SentWhole (c : Candidate) : List EnqueueReq → Prop where
  | whole {reqs : List EnqueueReq} (hsome : reqs ≠ [])
      (hreqs : ∀ req ∈ reqs, SameFrame c.raw req.raw) : SentWhole c reqs
  | fragments {reqs : List EnqueueReq} (hreqs : Rebuilds env c.id c.payload reqs) :
      SentWhole c reqs

/-- The candidate's class is split, and its payload takes too many fragments. -/
def Candidate.TooLarge (c : Candidate) : Prop :=
  c.splits ∧ fw.fragments c.payload ∧ 65535 < fw.fragTotal c.payload

/-- What comes of an object whose claim was granted: it is sent, or waits to be bundled by
the worker's next flush, or is dropped. -/
inductive Settled (c : Candidate) (m : Progress) : Except Drop Unit → Progress → Prop where
  | sent {reqs : List EnqueueReq} (hsent : SentWhole env c reqs) :
      Settled c m (.ok ()) { m with sent := reqs, waiting := [] }
  | waits (flow : ChainKey) :
      Settled c m (.ok ()) { m with sent := [], waiting := [(flow, ⟨c.id, c.payload⟩)] }
  | dropped (hlarge : c.TooLarge fw) : Settled c m (.error (.packet .fragOverflow)) m

/-- What comes of an operation that carries an object to claim: it is refused by a check
or a budget, or its claim is lost, or the object is sent, or dropped as too large. -/
inductive Finished (c : Candidate) (ref : DedupRef) : Except Drop Unit → Progress → Prop where
  | refused {drop : Drop} (hdrop : ∀ frameType, drop ≠ .deduped frameType) :
      Finished c ref (.error drop) .start
  | suppressed {frameType : String} :
      Finished c ref (.error (.deduped frameType)) ⟨some (ref, c.key, .lost), [], []⟩
  | settled {answer : ClaimAnswer} {result : Except Drop Unit} {m : Progress}
      (hanswer : answer ≠ .lost)
      (hsettled : Settled env fw c ⟨some (ref, c.key, answer), [], []⟩ result m) :
      Finished c ref result m

/-- The claim of an object, where its plane has a store. -/
def Candidate.claim (c : Candidate) : Option (DedupRef × Hash32) :=
  c.dedup.map fun ref => (ref, c.key)

/-- The program of an object past its claim. -/
def Outgoing.script {fw : Forwarder} (o : Outgoing fw) : LaneProg Unit :=
  match o.split with
  | some plan => LaneProg.fragmentWith env fw plan
  | none =>
      match o.flow with
      | none => LaneProg.enqueue (o.reqs o.raw)
      | some flow => do
          let raw ← LaneProg.emit (stampInPlace env fw o.raw flow)
          LaneProg.enqueue (o.reqs raw)

variable {env fw}

theorem LaneProg.emitBlock_eq (raw : Bytes) (bf : BlockFrame) (src : Option NetAddr) :
    LaneProg.emitBlock env fw raw bf src = (blockOut fw raw bf src).script env := by
  cases src with
  | none => by_cases h : fw.fragments bf.payload <;>
      simp [LaneProg.emitBlock, Outgoing.script, blockOut, splitOf, h]
  | some src => by_cases h : fw.fragments bf.payload <;>
      simp [LaneProg.emitBlock, Outgoing.script, blockOut, splitOf, h]

theorem LaneProg.emitAnchor_eq (raw : Bytes) (src : Option NetAddr) :
    LaneProg.emitAnchor env fw raw src = (anchorOut fw raw src).script env := by
  cases src <;> rfl

theorem LaneProg.emitSubtreeData_eq (raw : Bytes) (sf : SubtreeDataFrame)
    (src : Option NetAddr) :
    LaneProg.emitSubtreeData env fw raw sf src = (subtreeOut fw raw sf src).script env := by
  cases src with
  | none => by_cases h : fw.fragments sf.payload <;>
      simp [LaneProg.emitSubtreeData, Outgoing.script, subtreeOut, splitOf, h]
  | some src => by_cases h : fw.fragments sf.payload <;>
      simp [LaneProg.emitSubtreeData, Outgoing.script, subtreeOut, splitOf, h]

theorem LaneProg.emitBEEF_eq (checked : CheckedBEEF) (src : Option NetAddr) :
    LaneProg.emitBEEF env fw checked src = (beefOut fw checked src).script env := by
  cases src with
  | none => by_cases h : fw.fragments checked.bf.payload <;>
      simp [LaneProg.emitBEEF, Outgoing.script, beefOut, splitOf, h]
  | some src => by_cases h : fw.fragments checked.bf.payload <;>
      simp [LaneProg.emitBEEF, Outgoing.script, beefOut, splitOf, beefFlow, h]

variable {offer : Option (DedupRef × Hash32)} {m : Progress} {c : Candidate}

/-- The claim is granted, if there is one, and nothing has gone out yet. -/
structure Progress.Ready (m : Progress) (offer : Option (DedupRef × Hash32)) : Prop where
  granted : ∀ claim, offer = some claim → m.Granted claim
  sent : m.sent = []
  waiting : m.waiting = []

theorem Settled.of_sent (hready : m.Ready offer) {reqs : List EnqueueReq}
    (hsent : SentWhole env c reqs) :
    Settled env fw c m (.ok ()) { m with sent := m.sent ++ reqs } := by
  have hm : { m with sent := m.sent ++ reqs } = { m with sent := reqs, waiting := [] } := by
    rw [hready.sent, List.nil_append, ← hready.waiting]
  rw [hm]
  exact .sent hsent

theorem Settled.of_member (hready : m.Ready offer) (flow : ChainKey) :
    Settled env fw c m (.ok ()) { m with waiting := [(flow, ⟨c.id, c.payload⟩)] } := by
  have hm : { m with waiting := [(flow, ⟨c.id, c.payload⟩)] } =
      { m with sent := [], waiting := [(flow, ⟨c.id, c.payload⟩)] } := by
    rw [← hready.sent]
  rw [hm]
  exact .waits flow

theorem LaneProg.follows_enqueue (hgranted : ∀ claim, offer = some claim → m.Granted claim)
    (reqs : List EnqueueReq) :
    (LaneProg.enqueue reqs).Follows offer
      (fun result m' => result = .ok () ∧ m' = { m with sent := m.sent ++ reqs }) m := by
  refine (LaneProg.follows_emit hgranted _).mono ?_
  rintro result m' ⟨a, outputs, rfl, hemits, rfl⟩
  obtain ⟨_, first, second, hfirst, ⟨_, rfl⟩, rfl⟩ := Prog.Emits.of_bind hemits
  rw [sendAll_emits hfirst, List.append_nil]
  exact ⟨rfl, rfl⟩

theorem SameFrame.stamped {raw : Bytes} (hsize : headerSize ≤ raw.length) (flow : ChainKey)
    (last : UInt64) : SameFrame raw (stamped env fw raw flow last) :=
  ⟨stamped_length env fw raw flow last hsize,
    fun _ _ hout => stamped_field env fw raw flow last hsize hout⟩

theorem LaneProg.follows_fragmentWith (hlaws : FragmentLaws env) (hready : m.Ready offer)
    {plan : FragPlan} (hfragments : fw.fragments plan.payload)
    (hlength : plan.payload.length < 2 ^ 32) (hid : plan.id = c.id)
    (hpayload : plan.payload = c.payload) (hsplits : c.splits = true) :
    (LaneProg.fragmentWith env fw plan).Follows offer (Settled env fw c m) m := by
  rw [LaneProg.fragmentWith]
  split
  · rename_i hover
    exact .dropped ⟨hsplits, hpayload ▸ hfragments, hpayload ▸ hover⟩
  · rename_i hfit
    refine (LaneProg.follows_emit hready.granted _).mono ?_
    rintro result m' ⟨a, outputs, rfl, hemits, rfl⟩
    obtain ⟨_, first, second, hfirst, ⟨_, rfl⟩, rfl⟩ := Prog.Emits.of_bind hemits
    have hnumbered := fragmentLoop_emits hlaws hfragments.1 (Nat.le_of_not_lt hfit)
      (fun i hi => List.mem_range.mp hi) hfirst
    have hrebuilds := FragPlan.rebuilds hlaws hfragments (Nat.le_of_not_lt hfit) hlength hnumbered
    rw [hid, hpayload] at hrebuilds
    rw [List.append_nil]
    exact Settled.of_sent hready (.fragments hrebuilds)

/-- What an object past its claim must be for its candidate to be what goes out. -/
structure Outgoing.Carries (o : Outgoing fw) (c : Candidate) : Prop where
  raw : c.raw = o.raw
  size : headerSize ≤ o.raw.length
  split : ∀ plan, o.split = some plan →
    plan.payload.length < 2 ^ 32 ∧ plan.id = c.id ∧ plan.payload = c.payload ∧ c.splits = true
  reqs : ∀ raw, o.reqs raw ≠ [] ∧ ∀ req ∈ o.reqs raw, req.raw = raw

/-- An object past its claim settles, whatever numbers it draws. -/
theorem Outgoing.script_follows (hlaws : FragmentLaws env) (hready : m.Ready offer)
    {o : Outgoing fw} (ho : o.Carries c) :
    (o.script env).Follows offer (Settled env fw c m) m := by
  rw [Outgoing.script]
  cases hplan : o.split with
  | some plan =>
      obtain ⟨hlength, hid, hpayload, hsplits⟩ := ho.split plan hplan
      exact LaneProg.follows_fragmentWith hlaws hready (o.split_fragments hplan) hlength hid
        hpayload hsplits
  | none =>
      cases o.flow with
      | none =>
          refine (LaneProg.follows_enqueue hready.granted _).mono ?_
          rintro result m' ⟨rfl, rfl⟩
          refine Settled.of_sent hready (.whole (ho.reqs _).1 fun req hreq => ?_)
          rw [(ho.reqs _).2 req hreq, ho.raw]
          exact SameFrame.refl _
      | some flow =>
          refine LaneProg.Follows.bind (LaneProg.follows_emit hready.granted _) ?_ ?_
          · rintro raw m' ⟨a, outputs, hraw, hemits, rfl⟩
            obtain rfl := Except.ok.inj hraw
            obtain ⟨rfl, last, rfl⟩ := stampInPlace_emits hemits
            rw [List.append_nil]
            refine (LaneProg.follows_enqueue hready.granted _).mono ?_
            rintro result m' ⟨rfl, rfl⟩
            refine Settled.of_sent hready (.whole (ho.reqs _).1 fun req hreq => ?_)
            rw [(ho.reqs _).2 req hreq, ho.raw]
            exact SameFrame.stamped ho.size flow last
          · rintro drop m' ⟨a, outputs, hraw, _, _⟩
            cases hraw

/-- Both copies of a transaction are its frame, whichever engine is published. -/
theorem LaneProg.follows_enqueueTx (hready : m.Ready offer) {f : Frame} {groupIdx : UInt32}
    {raw : Bytes} (hsame : SameFrame c.raw raw) :
    (LaneProg.enqueueTx fw f groupIdx raw).Follows offer (Settled env fw c m) m := by
  refine LaneProg.Follows.bind (LaneProg.follows_enqueue hready.granted _) ?_ ?_
  · rintro _ m' ⟨_, rfl⟩
    apply LaneProg.follows_loadBridging
    intro bridging
    have hgranted : ∀ claim, offer = some claim → Progress.Granted
        { m with sent := m.sent ++ [enqueueData raw (fw.addrFor groupIdx) groupIdx] } claim :=
      hready.granted
    refine (LaneProg.follows_enqueue hgranted _).mono ?_
    rintro result m' ⟨rfl, rfl⟩
    rw [List.append_assoc, List.singleton_append]
    refine Settled.of_sent hready (.whole (List.cons_ne_nil _ _) ?_)
    intro req hreq
    rcases List.mem_cons.mp hreq with rfl | hbridge
    · exact hsame
    · rw [raw_of_mem_bridgeCopy hbridge]
      exact hsame
  · rintro drop m' ⟨hresult, _⟩
    cases hresult

theorem LaneProg.follows_coalesces {payload : Bytes} :
    (LaneProg.coalesces env fw payload).Follows offer
      (fun result m' => (∃ waits, result = .ok waits) ∧ m' = m) m := by
  rw [LaneProg.coalesces]
  split
  · apply LaneProg.follows_coalArmed
    intro armed
    split
    · apply LaneProg.follows_loadBridging
      intro bridging
      exact LaneProg.follows_pure ⟨⟨_, rfl⟩, rfl⟩
    · exact LaneProg.follows_pure ⟨⟨_, rfl⟩, rfl⟩
  · exact LaneProg.follows_pure ⟨⟨_, rfl⟩, rfl⟩

/-- A V2 transaction past its claim settles, whether or not engines come and go. -/
theorem LaneProg.emitTx_follows (hlaws : FragmentLaws env) (hready : m.Ready offer)
    {raw : Bytes} {f : Frame} (hsize : headerSize ≤ raw.length)
    (hlength : f.payload.length < 2 ^ 32) (hid : c.id = f.txID) (hraw : c.raw = raw)
    (hpayload : c.payload = f.payload) (hsplits : c.splits = true) (src : Option NetAddr) :
    (LaneProg.emitTx env fw raw f src).Follows offer (Settled env fw c m) m := by
  have hsame : SameFrame c.raw raw := hraw ▸ SameFrame.refl _
  cases src with
  | none => exact LaneProg.follows_enqueueTx hready hsame
  | some src =>
      simp only [LaneProg.emitTx]
      split
      · exact LaneProg.follows_enqueueTx hready hsame
      · split
        · rename_i hfragments
          exact LaneProg.follows_fragmentWith hlaws hready hfragments hlength hid.symm
            hpayload.symm hsplits
        · refine LaneProg.Follows.bind LaneProg.follows_coalesces ?_ ?_
          · rintro waits m' ⟨_, rfl⟩
            split
            · apply LaneProg.follows_addMember hready.granted
              rw [hready.waiting, List.nil_append, ← hid, ← hpayload]
              exact Settled.of_member hready _
            · refine LaneProg.Follows.bind (LaneProg.follows_emit hready.granted _) ?_ ?_
              · rintro sent m'' ⟨a, outputs, hsent, hemits, rfl⟩
                obtain rfl := Except.ok.inj hsent
                obtain ⟨rfl, last, rfl⟩ := stampInPlace_emits hemits
                rw [List.append_nil]
                exact LaneProg.follows_enqueueTx hready (hraw ▸ SameFrame.stamped hsize _ last)
              · rintro drop m'' ⟨a, outputs, hsent, _, _⟩
                cases hsent
          · rintro drop m' ⟨⟨waits, hwaits⟩, _⟩
            cases hwaits

end Sending

theorem mem_singleton_raw {req : Bytes → EnqueueReq} (hreq : ∀ raw, (req raw).raw = raw)
    (raw : Bytes) : [req raw] ≠ [] ∧ ∀ found ∈ [req raw], found.raw = raw := by
  refine ⟨List.cons_ne_nil _ _, fun found hfound => ?_⟩
  rw [List.mem_singleton.mp hfound, hreq]

section Offers

variable (env : Env) (fw : Forwarder)

/-- What an input carries if it passes a check. -/
def offerOf {A : Type} (check : Except Drop A) (object : A → Option Candidate) :
    Option Candidate :=
  match check with
  | .ok result => object result
  | .error _ => none

/-- The object a transaction frame carries; a V1 frame is never claimed. -/
def txOffer (raw : Bytes) (verify : Bool) : Option Candidate :=
  offerOf (txGates env fw raw verify) fun f =>
    if f.version = frameVerV2 then some ⟨fw.txDedup, f.txID, f.txID, raw, f.payload, true⟩
    else none

def bareTxOffer (tx : Bytes) : Option Candidate :=
  offerOf (bareTxGates env fw tx) fun framed => txOffer env fw framed false

def blockOffer (raw : Bytes) : Option Candidate :=
  offerOf (blockGates env fw raw) fun bf =>
    some ⟨fw.txDedup, bf.contentID, bf.contentID, raw, bf.payload, true⟩

def anchorOffer (raw : Bytes) : Option Candidate :=
  offerOf (anchorGates env raw) fun f =>
    some ⟨fw.txDedup, f.txID, f.txID, raw, f.payload, false⟩

def subtreeOffer (raw : Bytes) : Option Candidate :=
  offerOf (subtreeGates env fw raw) fun sf =>
    some ⟨fw.txDedup, sf.subtreeID, sf.subtreeID, raw, sf.payload, true⟩

/-- The object a BEEF frame carries, if the budgets let it pass. -/
def beefOffer (raw : Bytes) (src : Option NetAddr) (checkContentID : Bool) : Option Candidate :=
  offerOf (beefGates env fw raw src) fun (_, bf, topics) =>
    let (bf, raw) := setDeliverCount fw bf raw src topics
    offerOf (contentGate env bf src checkContentID) fun _ =>
      some ⟨fw.beefDedup.or fw.txDedup, beefClaimKey env bf.contentID bf.topicID, bf.contentID,
        raw, bf.payload, true⟩

def recordOffer (p : PreparedBEEF) (src : Option NetAddr) : Option Candidate :=
  p.frame.bind fun frame => beefOffer env fw frame src false

/-- The object a datagram carries on a class of socket. -/
def dispatchOffer (raw : Bytes) (src : Option NetAddr) (cls : IngressClass) :
    Option Candidate :=
  if ¬ framed raw then
    if 2 ≤ raw.length ∧ uint16At raw 0 = beefRecordTag then
      recordOffer env fw (prepareBEEF env fw raw src) src
    else if cls = .beef then none
    else bareTxOffer env fw raw
  else if versionByte raw = some frameVerV4 then
    if cls ≠ .privileged then none else blockOffer env fw raw
  else if versionByte raw = some frameVerV5 then
    if cls ≠ .privileged then none else subtreeOffer env fw raw
  else if versionByte raw = some frameVerV6 then
    if cls = .beef then none else anchorOffer env fw raw
  else if versionByte raw = some frameVerV9 then beefOffer env fw raw src true
  else if versionByte raw = some frameVerV8 then none
  else if cls = .beef then none
  else txOffer env fw raw fw.verifyPayloadHash

/-- The object an emitting operation carries, budgets aside. -/
def EmitOp.offer : EmitOp → Option Candidate
  | .dispatchClass raw src _ cls => dispatchOffer env fw raw src cls
  | .process raw _ => txOffer env fw raw fw.verifyPayloadHash
  | .dispatchBareTx tx _ => bareTxOffer env fw tx
  | .processBlock raw _ => blockOffer env fw raw
  | .processAnchor raw _ => anchorOffer env fw raw
  | .processSubtreeData raw _ => subtreeOffer env fw raw
  | .processBEEF raw src _ => beefOffer env fw raw src true
  | .dispatchBEEF p src _ => recordOffer env fw p src
  | .processBundle _ => none
  | .flushCoalesced => none
  | .forwardControl _ _ _ => none

/-- An operation that carries an object to claim ends as it should. -/
def Concludes (offer : Option Candidate) (result : Except Drop Unit) (m : Progress) : Prop :=
  ∀ c ref, offer = some c → c.dedup = some ref → Finished env fw c ref result m

/-- A program keeps the discipline of an offer, from its start. -/
def LaneProg.Offers (x : LaneProg Unit) (offer : Option Candidate) : Prop :=
  x.Follows (offer.bind Candidate.claim) (Concludes env fw offer) .start

variable {env fw}

theorem LaneProg.offers_fail {offer : Option Candidate} {drop : Drop}
    (hdrop : ∀ frameType, drop ≠ .deduped frameType) :
    (LaneProg.fail drop).Offers env fw offer :=
  LaneProg.follows_fail fun _ _ _ _ => .refused hdrop

/-- A check that fails, for a reason other than a lost claim, offers nothing. -/
theorem LaneProg.offers_gate {A : Type} {check : Except Drop A} {object : A → Option Candidate}
    {next : A → LaneProg Unit}
    (hnext : ∀ result, check = .ok result → (next result).Offers env fw (object result)) :
    (LaneProg.gate check >>= next).Offers env fw (offerOf check object) := by
  cases check with
  | error drop =>
      intro c ref hnone
      cases hnone
  | ok result => exact hnext result rfl

theorem LaneProg.offers_none {x : LaneProg Unit} {ends : Except Drop Unit → Progress → Prop}
    (hx : x.Follows none ends .start) : x.Offers env fw none := by
  refine LaneProg.Follows.mono hx ?_
  intro result m _ c ref hnone
  cases hnone

theorem Progress.ready_start : Progress.start.Ready none :=
  ⟨fun _ hclaim => (by cases hclaim), rfl, rfl⟩

theorem LaneProg.follows_claimIngressIn {ref : DedupRef} {id : Hash32} {frameType : String} :
    (LaneProg.claimIngressIn (some ref) id frameType).Follows (some (ref, id))
      (fun result m => ∃ answer, m = ⟨some (ref, id, answer), [], []⟩ ∧
        result = if answer = .lost then .error (.deduped frameType) else .ok ()) .start := by
  refine ⟨⟨rfl, rfl⟩, fun answer => ?_⟩
  cases (answer : ClaimAnswer) with
  | won => exact ⟨.won, rfl, rfl⟩
  | lost => exact ⟨.lost, rfl, rfl⟩
  | failedOpen => exact ⟨.failedOpen, rfl, rfl⟩

/-- Claim, then send: the program offers the object it sends. -/
theorem LaneProg.offers_claimed {c : Candidate} {frameType : String} {emission : LaneProg Unit}
    (hemission : ∀ {offer m}, Progress.Ready m offer →
      emission.Follows offer (Settled env fw c m) m) :
    (LaneProg.claimIngressIn c.dedup c.key frameType >>= fun _ => emission).Offers env fw
      (some c) := by
  rw [LaneProg.Offers, Option.bind_some, Candidate.claim]
  cases hdedup : c.dedup with
  | none =>
      refine LaneProg.Follows.mono (hemission Progress.ready_start) ?_
      intro result m _ c' ref hc hsome
      obtain rfl := Option.some.inj hc
      rw [hdedup] at hsome
      cases hsome
  | some ref =>
      have hends : ∀ result m, Finished env fw c ref result m →
          Concludes env fw (some c) result m := by
        intro result m hfinished c' ref' hc hsome
        obtain rfl := Option.some.inj hc
        obtain rfl := Option.some.inj (hdedup.symm.trans hsome)
        exact hfinished
      refine LaneProg.Follows.bind LaneProg.follows_claimIngressIn ?_ ?_
      · rintro _ m ⟨answer, rfl, hresult⟩
        have hanswer : answer ≠ .lost := by
          rintro rfl
          cases hresult
        have hready : Progress.Ready ⟨some (ref, c.key, answer), [], []⟩ (some (ref, c.key)) := by
          refine ⟨?_, rfl, rfl⟩
          rintro claim ⟨⟩
          exact ⟨answer, rfl, hanswer⟩
        refine LaneProg.Follows.mono (hemission hready) ?_
        intro result m hsettled
        exact hends _ _ (.settled hanswer hsettled)
      · rintro drop m ⟨answer, rfl, hresult⟩
        by_cases hlost : answer = .lost
        · subst hlost
          obtain rfl := Except.error.inj hresult
          exact hends _ _ .suppressed
        · rw [if_neg hlost] at hresult
          cases hresult

/-- Claim an object, then send it in the form its path has. -/
theorem LaneProg.offers_outgoing (hlaws : FragmentLaws env) {c : Candidate} {frameType : String}
    {o : Outgoing fw} (ho : o.Carries c) :
    (LaneProg.claimIngressIn c.dedup c.key frameType >>= fun _ => o.script env).Offers env fw
      (some c) :=
  LaneProg.offers_claimed fun hready => Outgoing.script_follows hlaws hready ho

theorem LaneProg.claimBEEFIngress_eq (key : Hash32) (frameType : String) :
    LaneProg.claimBEEFIngress fw key frameType =
      LaneProg.claimIngressIn (fw.beefDedup.or fw.txDedup) key frameType := by
  rw [LaneProg.claimBEEFIngress]
  cases fw.beefDedup <;> rfl

/-- A BEEF frame is checked, charged, claimed and sent, one after the other. -/
theorem LaneProg.processBEEF_eq (raw : Bytes) (src : Option NetAddr) (now : Time)
    (checkContentID : Bool) :
    LaneProg.processBEEF env fw raw src now checkContentID =
      LaneProg.gate (beefGates env fw raw src) >>= fun (engine, bf, topics) =>
        LaneProg.chargeBudget src (setDeliverCount fw bf raw src topics).2.length now >>=
          fun _ => LaneProg.gate (contentGate env (setDeliverCount fw bf raw src topics).1 src
            checkContentID) >>= fun _ =>
          LaneProg.claimIngressIn (fw.beefDedup.or fw.txDedup)
            (beefClaimKey env (setDeliverCount fw bf raw src topics).1.contentID
              (setDeliverCount fw bf raw src topics).1.topicID) "brc148" >>= fun _ =>
          (beefOut fw ⟨(setDeliverCount fw bf raw src topics).1,
            engine.groupIndex (setDeliverCount fw bf raw src topics).1.topicID,
            (setDeliverCount fw bf raw src topics).2⟩ src).script env := by
  simp only [LaneProg.processBEEF, LaneProg.checkBEEF, LaneProg.bind_assoc,
    LaneProg.claimBEEFIngress_eq, LaneProg.emitBEEF_eq]
  rfl

theorem LaneProg.enqueue_offers (reqs : List EnqueueReq) :
    (LaneProg.enqueue reqs).Offers env fw none :=
  LaneProg.offers_none (LaneProg.follows_enqueue Progress.ready_start.granted reqs)

theorem LaneProg.processBundle_offers (raw : Bytes) :
    (LaneProg.processBundle fw raw).Offers env fw none := by
  apply LaneProg.follows_gate
  · intro drop _ c ref hnone
    cases hnone
  · intro _ _
    exact LaneProg.enqueue_offers _

theorem LaneProg.flushCoalesced_offers :
    (LaneProg.flushCoalesced env fw).Offers env fw none := by
  apply LaneProg.follows_takeMembers
  intro coal
  cases coal with
  | none =>
      intro c ref hnone
      cases hnone
  | some coal =>
      exact LaneProg.offers_none (LaneProg.follows_emit Progress.ready_start.granted _)

variable (hdec : DecodeLaws env) (hlaws : FragmentLaws env)

include hdec hlaws

theorem LaneProg.process_offers (raw : Bytes) (src : Option NetAddr) (verify : Bool) :
    (LaneProg.process env fw raw src verify).Offers env fw (txOffer env fw raw verify) := by
  apply LaneProg.offers_gate
  intro f hgates
  by_cases hversion : f.version = frameVerV2
  · obtain ⟨hsize, hlength⟩ := hdec.decode_size (txGates_ok hgates) hversion
    simp only [hversion, ↓reduceIte]
    exact LaneProg.offers_claimed (c := ⟨fw.txDedup, f.txID, f.txID, raw, f.payload, true⟩)
      fun hready => LaneProg.emitTx_follows hlaws hready hsize hlength rfl rfl rfl rfl src
  · have hlegacy : LaneProg.emitTx env fw raw f src =
        LaneProg.enqueueTx fw f (fw.engine.groupIndex f.txID) raw := by
      cases src with
      | none => rfl
      | some src => exact if_pos hversion
    simp only [hversion, ↓reduceIte, hlegacy]
    have hsent : (LaneProg.enqueueTx fw f (fw.engine.groupIndex f.txID) raw).Follows none
        (Settled env fw ⟨none, f.txID, f.txID, raw, f.payload, false⟩ .start) .start :=
      LaneProg.follows_enqueueTx Progress.ready_start (SameFrame.refl raw)
    exact LaneProg.offers_none hsent

theorem LaneProg.dispatchBareTx_offers (tx : Bytes) (src : Option NetAddr) :
    (LaneProg.dispatchBareTx env fw tx src).Offers env fw (bareTxOffer env fw tx) := by
  apply LaneProg.offers_gate
  intro framed _
  exact LaneProg.process_offers hdec hlaws framed src false

theorem LaneProg.processBlock_offers (raw : Bytes) (src : Option NetAddr) :
    (LaneProg.processBlock env fw raw src).Offers env fw (blockOffer env fw raw) := by
  apply LaneProg.offers_gate
  intro bf hgates
  obtain ⟨hsize, hlength⟩ := hdec.decodeBlock_size (blockGates_ok hgates)
  rw [LaneProg.emitBlock_eq]
  refine LaneProg.offers_outgoing hlaws ⟨rfl, hsize, ?_, mem_singleton_raw fun _ => rfl⟩
  intro plan hplan
  obtain ⟨s, _, rfl⟩ := splitOf_some hplan
  exact ⟨hlength, rfl, rfl, rfl⟩

theorem LaneProg.processAnchor_offers (raw : Bytes) (src : Option NetAddr) :
    (LaneProg.processAnchor env fw raw src).Offers env fw (anchorOffer env fw raw) := by
  apply LaneProg.offers_gate
  intro f hgates
  rw [LaneProg.emitAnchor_eq]
  exact LaneProg.offers_outgoing hlaws
    ⟨rfl, hdec.decodeAnchor_size (anchorGates_ok hgates), fun _ hplan => (by cases hplan),
      mem_singleton_raw fun _ => rfl⟩

theorem LaneProg.processSubtreeData_offers (raw : Bytes) (src : Option NetAddr) :
    (LaneProg.processSubtreeData env fw raw src).Offers env fw (subtreeOffer env fw raw) := by
  apply LaneProg.offers_gate
  intro sf hgates
  obtain ⟨hsize, hlength⟩ := hdec.decodeSubtreeData_size (subtreeGates_ok hgates)
  rw [LaneProg.emitSubtreeData_eq]
  refine LaneProg.offers_outgoing hlaws ⟨rfl, hsize, ?_, mem_singleton_raw fun _ => rfl⟩
  intro plan hplan
  obtain ⟨s, _, rfl⟩ := splitOf_some hplan
  exact ⟨hlength, rfl, rfl, rfl⟩

theorem LaneProg.processBEEF_offers
    (raw : Bytes) (src : Option NetAddr) (now : Time) (checkContentID : Bool) :
    (LaneProg.processBEEF env fw raw src now checkContentID).Offers env fw
      (beefOffer env fw raw src checkContentID) := by
  rw [LaneProg.processBEEF_eq]
  apply LaneProg.offers_gate
  rintro ⟨engine, bf, topics⟩ hgates
  obtain ⟨hsize, hlength⟩ := hdec.decodeBEEF_size (beefGates_ok hgates)
  have hraw : (setDeliverCount fw bf raw src topics).2.length = raw.length := by
    cases src with
    | none => rfl
    | some s => exact List.length_set
  have hpayload : (setDeliverCount fw bf raw src topics).1.payload = bf.payload := by
    cases src <;> rfl
  refine LaneProg.follows_chargeBudget
    (fun reason c ref _ _ => .refused fun _ hsame => by cases hsame) ?_
  apply LaneProg.offers_gate
  intro _ _
  refine LaneProg.offers_outgoing hlaws
    ⟨rfl, hraw ▸ hsize, ?_, mem_singleton_raw fun _ => rfl⟩
  intro plan hplan
  obtain ⟨s, _, rfl⟩ := splitOf_some hplan
  exact ⟨lt_of_eq_of_lt (congrArg List.length hpayload) hlength, rfl, rfl, rfl⟩

theorem LaneProg.dispatchBEEF_offers (p : PreparedBEEF) (src : Option NetAddr) (now : Time) :
    (LaneProg.dispatchBEEF env fw p src now).Offers env fw (recordOffer env fw p src) := by
  rw [LaneProg.dispatchBEEF, recordOffer]
  cases p.frame with
  | none => exact LaneProg.offers_fail fun _ hsame => by cases hsame
  | some frame => exact LaneProg.processBEEF_offers hdec hlaws frame src now false

theorem LaneProg.dispatchClass_offers
    (raw : Bytes) (src : Option NetAddr) (now : Time) (cls : IngressClass) :
    (LaneProg.dispatchClass env fw raw src now cls).Offers env fw
      (dispatchOffer env fw raw src cls) := by
  unfold LaneProg.dispatchClass dispatchOffer
  split_ifs
  · exact LaneProg.offers_fail fun _ hsame => by cases hsame
  · exact LaneProg.processBlock_offers hdec hlaws raw src
  · exact LaneProg.offers_fail fun _ hsame => by cases hsame
  · exact LaneProg.processSubtreeData_offers hdec hlaws raw src
  · exact LaneProg.offers_fail fun _ hsame => by cases hsame
  · exact LaneProg.processAnchor_offers hdec hlaws raw src
  · exact LaneProg.processBEEF_offers hdec hlaws raw src now true
  · exact LaneProg.offers_fail fun _ hsame => by cases hsame
  · exact LaneProg.processBundle_offers raw
  · exact LaneProg.offers_fail fun _ hsame => by cases hsame
  · exact LaneProg.process_offers hdec hlaws raw src _
  · exact LaneProg.dispatchBEEF_offers hdec hlaws _ src now
  · exact LaneProg.offers_fail fun _ hsame => by cases hsame
  · exact LaneProg.dispatchBareTx_offers hdec hlaws raw src

/-- Every emitting operation keeps the discipline of the object it carries. -/
theorem EmitOp.script_offers (groupText : UInt16 → String) (op : EmitOp) :
    (op.script env groupText fw).Offers env fw (op.offer env fw) := by
  cases op with
  | dispatchClass raw src now cls =>
      exact LaneProg.dispatchClass_offers hdec hlaws raw src now cls
  | process raw src => exact LaneProg.process_offers hdec hlaws raw src _
  | dispatchBareTx tx src => exact LaneProg.dispatchBareTx_offers hdec hlaws tx src
  | processBlock raw src => exact LaneProg.processBlock_offers hdec hlaws raw src
  | processAnchor raw src => exact LaneProg.processAnchor_offers hdec hlaws raw src
  | processSubtreeData raw src => exact LaneProg.processSubtreeData_offers hdec hlaws raw src
  | processBEEF raw src now => exact LaneProg.processBEEF_offers hdec hlaws raw src now true
  | dispatchBEEF p src now => exact LaneProg.dispatchBEEF_offers hdec hlaws p src now
  | processBundle raw => exact LaneProg.processBundle_offers raw
  | flushCoalesced => exact LaneProg.flushCoalesced_offers
  | forwardControl raw idx port => exact LaneProg.enqueue_offers _

end Offers

end ShardProxy
