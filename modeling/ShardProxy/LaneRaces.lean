/-
Lanes that race for a claim.  Any number of lanes, the UDP workers, the connections and
whatever else calls the forwarder, run emitting operations and flushes on what they
share, and their steps interleave in any order.  Stores may forget claims or fail and
let a caller pass, budgets may answer anything, and engines are published at any time.
An object still goes out once for every time its claim was free, and a copy is suppressed
only because of another one that goes out.
-/
import ShardProxy.LaneDiscipline

namespace ShardProxy

open ByteField Dispenser AtomicOps

/-- What a lane does next: an emitting operation, or a flush of its egress. -/
inductive LaneJob where
  | emits (op : EmitOp)
  | flushEgr

/-- What the lanes share, the egress of each, and how often a store forgot a claim. -/
structure Proxy (I : Type) where
  shared : Shared
  queue : I → List EnqueueReq
  coal : I → Option CoalBuffer
  forgotten : DedupRef → Hash32 → Nat

def Proxy.start {I : Type} (shared : Shared) (coal : I → Option CoalBuffer) : Proxy I :=
  ⟨shared, fun _ => [], coal, fun _ _ => 0⟩

/-- A claim is taken in the stores. -/
def DedupRef.Claimed (ref : DedupRef) (id : Hash32) (stores : Nat → Finset (String × Hash32)) :
    Prop :=
  (ref.keySpace, id) ∈ stores ref.store

instance (ref : DedupRef) (id : Hash32) (stores : Nat → Finset (String × Hash32)) :
    Decidable (ref.Claimed id stores) :=
  inferInstanceAs (Decidable (_ ∈ _))

section Lanes

variable {I : Type} [DecidableEq I]

/-- The state as one lane finds it. -/
def Proxy.view (s : Proxy I) (i : I) : FwState where
  chains := s.shared.chains
  stores := s.shared.stores
  beefLimit := s.shared.beefLimit
  bridging := s.shared.bridging
  queue := s.queue i
  coal := s.coal i

/-- The state as one lane leaves it. -/
def Proxy.put (s : Proxy I) (i : I) (st : FwState) : Proxy I :=
  { s with
    shared := st.shared
    queue := Function.update s.queue i st.queue
    coal := Function.update s.coal i st.coal }

/-- A bounded store drops an old claim. -/
def Proxy.forget (s : Proxy I) (ref : DedupRef) (id : Hash32) : Proxy I :=
  { s with
    shared := { s.shared with
      stores := Function.update s.shared.stores ref.store
        ((s.shared.stores ref.store).erase (ref.keySpace, id)) }
    forgotten := Function.update s.forgotten ref
      (Function.update (s.forgotten ref) id (s.forgotten ref id + 1)) }

/-- What an operation of a lane may answer and do.  The charges of other lanes may fall
between the parts of a charge, so any decision is possible. -/
inductive LaneDoes (env : Env) (i : I) : (op : LaneOp) → Proxy I → op.Answer → Proxy I → Prop where
  | performs (op : LaneOp) (s : Proxy I) :
      LaneDoes env i op s (laneStep env op (s.view i)).1 (s.put i (laneStep env op (s.view i)).2)
  | charges (src : Option NetAddr) (n : Nat) (now : Time) (s : Proxy I) (decision : RateDecision)
      (limiter : BEEFLimiter) :
      LaneDoes env i (.allow src n now) s decision
        { s with shared := { s.shared with beefLimit := limiter } }
  | failsOpen (ref : DedupRef) (id : Hash32) (s : Proxy I) :
      LaneDoes env i (.claim ref id) s ClaimAnswer.failedOpen s

/-- What happens to the shared state by itself. -/
inductive Surrounds : Proxy I → Proxy I → Prop where
  | forgets {s : Proxy I} {ref : DedupRef} {id : Hash32}
      (hclaimed : ref.Claimed id s.shared.stores) : Surrounds s (s.forget ref id)
  | publishes {s : Proxy I} (bridging : Option Engine) :
      Surrounds s { s with shared := { s.shared with bridging := bridging } }

variable (env : Env) (groupText : UInt16 → String) (fw : Forwarder)

def LaneJob.script : LaneJob → LaneProg Unit
  | .emits op => op.script env groupText fw
  | .flushEgr => LaneProg.flushEgr env fw

def LaneJob.offer : LaneJob → Option Candidate
  | .emits op => op.offer env fw
  | .flushEgr => none

/-- The lanes of a proxy, each with its jobs in order. -/
def lanes (jobs : I → List LaneJob) :
    System I (Proxy I) LaneOp LaneOp.Answer (Except Drop Unit) where
  job i n := (jobs i)[n]?.map fun job => job.script env groupText fw
  does := LaneDoes env
  surrounds := Surrounds

abbrev LaneWorld (I : Type) : Type := World I (Proxy I) LaneOp LaneOp.Answer (Except Drop Unit)

end Lanes

/-- What the operations of a job come to. -/
def progressOf (trace : List (Exchange LaneOp LaneOp.Answer)) : Progress :=
  trace.foldl Progress.sees .start

/-- The claim an operation asks for, with the answer it got. -/
def claimOf : Exchange LaneOp LaneOp.Answer → Option (DedupRef × Hash32 × ClaimAnswer)
  | ⟨.claim ref id, answer⟩ => some (ref, id, answer)
  | _ => none

/-- How often a claim got an answer. -/
def answered {I : Type} (w : LaneWorld I) (ref : DedupRef) (id : Hash32) (answer : ClaimAnswer) :
    Nat :=
  (w.history.filter fun entry => claimOf entry.2 = some (ref, id, answer)).length

section Traces

variable {offer : Option (DedupRef × Hash32)} {trace : List (Exchange LaneOp LaneOp.Answer)}
  {ends : Except Drop Unit → Progress → Prop} {x y : LaneProg Unit}

theorem progressOf_concat (trace : List (Exchange LaneOp LaneOp.Answer))
    (event : Exchange LaneOp LaneOp.Answer) :
    progressOf (trace ++ [event]) = (progressOf trace).sees event := by
  rw [progressOf, List.foldl_append]
  rfl

theorem Progress.sees_claim (m : Progress) (event : Exchange LaneOp LaneOp.Answer) :
    (m.sees event).claim = (claimOf event).or m.claim := by
  obtain ⟨op, answer⟩ := event
  cases op <;> rfl

/-- The claim known of a job is one it asked for. -/
theorem mem_of_progressOf_claim {claim : DedupRef × Hash32 × ClaimAnswer}
    (hclaim : (progressOf trace).claim = some claim) :
    ∃ event ∈ trace, claimOf event = some claim := by
  induction trace using List.reverseRecOn with
  | nil => cases hclaim
  | append_singleton trace event ih =>
      rw [progressOf_concat, Progress.sees_claim] at hclaim
      cases hevent : claimOf event with
      | none =>
          rw [hevent, Option.none_or] at hclaim
          obtain ⟨found, hmem, hfound⟩ := ih hclaim
          exact ⟨found, List.mem_append_left _ hmem, hfound⟩
      | some asked =>
          rw [hevent, Option.some_or] at hclaim
          exact ⟨event, List.mem_append_right _ (List.mem_singleton_self _), hevent.trans hclaim⟩

/-- Nothing of an object goes out before its claim is granted. -/
theorem granted_of_sent (hx : x.Follows offer ends .start) (hpath : Path x trace y)
    (hsent : (progressOf trace).sent ≠ [] ∨ (progressOf trace).waiting ≠ [])
    {claim : DedupRef × Hash32} (hoffer : offer = some claim) :
    (progressOf trace).Granted claim := by
  have hkept : ∀ (m : Progress) (event : Exchange LaneOp LaneOp.Answer),
      (m.sent ≠ [] ∨ m.waiting ≠ [] → m.Granted claim) → m.allows offer event.op →
        ((m.sees event).sent ≠ [] ∨ (m.sees event).waiting ≠ [] →
          (m.sees event).Granted claim) := by
    rintro m ⟨op, given⟩ hm hallowed hout
    cases op with
    | claim ref id =>
        rw [hallowed.2] at hout
        exact absurd hout (by simp [Progress.sees, Progress.start])
    | enqueue req => exact hallowed claim hoffer
    | addMember flow member => exact hallowed claim hoffer
    | _ => exact hm hout
  exact Script.Follows.keeps (fun m => m.sent ≠ [] ∨ m.waiting ≠ [] → m.Granted claim) hx
    (by simp [Progress.start]) hkept hpath hsent

end Traces

section Account

variable {I : Type} {s s' : Proxy I} {ref : DedupRef} {id : Hash32}

/-- One for a claim that is taken, zero for one that is free. -/
def DedupRef.taken (ref : DedupRef) (id : Hash32) (stores : Nat → Finset (String × Hash32)) :
    Nat :=
  if ref.Claimed id stores then 1 else 0

theorem DedupRef.claimed_claimedStores {ref' : DedupRef} {id' : Hash32}
    {stores : Nat → Finset (String × Hash32)} :
    ref.Claimed id (claimedStores ref' id' stores) ↔
      ref.Claimed id stores ∨ (ref' = ref ∧ id' = id) := by
  rw [DedupRef.Claimed, mem_claimedStores]
  refine or_congr_right ⟨?_, ?_⟩
  · rintro ⟨hstore, hentry⟩
    obtain ⟨hspace, hid⟩ := Prod.mk.inj hentry
    obtain ⟨store', space'⟩ := ref'
    obtain ⟨store, space⟩ := ref
    dsimp only at hstore hspace
    rw [hstore, hspace, hid]
    exact ⟨rfl, rfl⟩
  · rintro ⟨rfl, rfl⟩
    exact ⟨rfl, rfl⟩

/-- What an operation of a lane does to the claims: it wins one that was free, loses one
that was taken, or leaves them all. -/
inductive ClaimStep (s s' : Proxy I) : Exchange LaneOp LaneOp.Answer → Prop where
  | won {event : Exchange LaneOp LaneOp.Answer} {ref : DedupRef} {id : Hash32}
      (hevent : claimOf event = some (ref, id, .won)) (hfree : ¬ ref.Claimed id s.shared.stores)
      (hstores : s'.shared.stores = claimedStores ref id s.shared.stores) : ClaimStep s s' event
  | lost {event : Exchange LaneOp LaneOp.Answer} {ref : DedupRef} {id : Hash32}
      (hevent : claimOf event = some (ref, id, .lost)) (htaken : ref.Claimed id s.shared.stores)
      (hstores : s'.shared.stores = s.shared.stores) : ClaimStep s s' event
  | failedOpen {event : Exchange LaneOp LaneOp.Answer} {ref : DedupRef} {id : Hash32}
      (hevent : claimOf event = some (ref, id, .failedOpen))
      (hstores : s'.shared.stores = s.shared.stores) : ClaimStep s s' event
  | none {event : Exchange LaneOp LaneOp.Answer} (hevent : claimOf event = none)
      (hstores : s'.shared.stores = s.shared.stores) : ClaimStep s s' event

/-- A won claim becomes taken, and nothing else changes whether a claim is. -/
theorem ClaimStep.taken {event : Exchange LaneOp LaneOp.Answer} (hstep : ClaimStep s s' event)
    (ref : DedupRef) (id : Hash32) :
    ref.taken id s'.shared.stores = ref.taken id s.shared.stores +
      if claimOf event = some (ref, id, .won) then 1 else 0 := by
  cases hstep with
  | @won ref' id' hevent hfree hstores =>
      simp only [DedupRef.taken, hstores, hevent, DedupRef.claimed_claimedStores]
      by_cases hsame : ref' = ref ∧ id' = id
      · obtain ⟨rfl, rfl⟩ := hsame
        simp [hfree]
      · have hother : some (ref', id', ClaimAnswer.won) ≠ some (ref, id, .won) := by
          intro heq
          cases heq
          exact hsame ⟨rfl, rfl⟩
        simp [hsame, hother]
  | lost hevent htaken hstores => simp [hstores, hevent]
  | failedOpen hevent hstores => simp [hstores, hevent]
  | none hevent hstores => simp [hstores, hevent]

theorem DedupRef.claimed_forget {ref' : DedupRef} {id' : Hash32} :
    ref.Claimed id (s.forget ref' id').shared.stores ↔
      ref.Claimed id s.shared.stores ∧ ¬ (ref' = ref ∧ id' = id) := by
  obtain ⟨store', space'⟩ := ref'
  obtain ⟨store, space⟩ := ref
  by_cases hstore : store = store'
  · subst hstore
    simp [DedupRef.Claimed, Proxy.forget, eq_comm, and_comm]
  · simp [DedupRef.Claimed, Proxy.forget, Function.update_of_ne hstore, Ne.symm hstore]

/-- A claim that a store forgets is free again, and counted. -/
theorem Surrounds.taken (hsurrounds : Surrounds s s') (ref : DedupRef) (id : Hash32) :
    s'.forgotten ref id + ref.taken id s'.shared.stores =
      s.forgotten ref id + ref.taken id s.shared.stores := by
  cases hsurrounds with
  | publishes => rfl
  | @forgets ref' id' hclaimed =>
      simp only [DedupRef.taken, DedupRef.claimed_forget]
      by_cases hsame : ref' = ref ∧ id' = id
      · obtain ⟨rfl, rfl⟩ := hsame
        simp [hclaimed, Proxy.forget]
      · have hforgotten : (s.forget ref' id').forgotten ref id = s.forgotten ref id := by
          by_cases href : ref = ref'
          · subst href
            have hid : id ≠ id' := fun hid => hsame ⟨rfl, hid.symm⟩
            simp [Proxy.forget, hid]
          · simp [Proxy.forget, href]
        simp [hsame, hforgotten]

/-- A claim that is forgotten was taken before. -/
theorem Surrounds.claimed (hsurrounds : Surrounds s s')
    (hclaimed : ref.Claimed id s'.shared.stores) : ref.Claimed id s.shared.stores := by
  cases hsurrounds with
  | publishes => exact hclaimed
  | forgets => exact (DedupRef.claimed_forget.mp hclaimed).1

variable [DecidableEq I] {env : Env}

theorem LaneDoes.claimStep {i : I} {op : LaneOp} {answer : op.Answer}
    (hdoes : LaneDoes env i op s answer s') : ClaimStep s s' ⟨op, answer⟩ := by
  cases hdoes with
  | performs =>
      cases op with
      | claim ref id =>
          by_cases htaken : (ref.keySpace, id) ∈ (s.view i).stores ref.store
          · have hstep : laneStep env (.claim ref id) (s.view i) = (ClaimAnswer.lost, s.view i) :=
              if_pos htaken
            rw [hstep]
            exact .lost rfl htaken rfl
          · have hstep : laneStep env (.claim ref id) (s.view i) = (ClaimAnswer.won,
                { s.view i with stores := claimedStores ref id (s.view i).stores }) :=
              if_neg htaken
            rw [hstep]
            exact .won rfl htaken rfl
      | _ => exact .none rfl rfl
  | charges => exact .none rfl rfl
  | failsOpen => exact .failedOpen rfl rfl

theorem LaneDoes.forgotten {i : I} {op : LaneOp} {answer : op.Answer}
    (hdoes : LaneDoes env i op s answer s') : s'.forgotten = s.forgotten := by
  cases hdoes <;> rfl

variable {groupText : UInt16 → String} {fw : Forwarder} {jobs : I → List LaneJob}
  {shared : Shared} {coal : I → Option CoalBuffer} {w : LaneWorld I}

/-- Every time a claim was won it had been free: at the start, or because a store forgot
it since it was last taken. -/
theorem wins_account (hreach : Reachable (lanes env groupText fw jobs)
      (Proxy.start shared coal) w) (ref : DedupRef) (id : Hash32) :
    answered w ref id .won + ref.taken id shared.stores =
      w.shared.forgotten ref id + ref.taken id w.shared.shared.stores := by
  refine AtomicOps.Reachable.invariant (fun s history =>
    (history.filter fun entry => claimOf entry.2 = some (ref, id, .won)).length +
        ref.taken id shared.stores =
      s.forgotten ref id + ref.taken id s.shared.stores) ?_ ?_ ?_ hreach
  · exact rfl
  · intro i n op s answer s' history hinv hdoes
    rw [hdoes.forgotten, hdoes.claimStep.taken ref id, List.filter_append, List.length_append]
    by_cases hwon : claimOf ⟨op, answer⟩ = some (ref, id, .won)
    · simp only [hwon, decide_true, List.filter_cons_of_pos, List.filter_nil, List.length_singleton,
        ↓reduceIte]
      omega
    · simp only [hwon, decide_false, Bool.false_eq_true, not_false_eq_true,
        List.filter_cons_of_neg, List.filter_nil, List.length_nil, ↓reduceIte]
      omega
  · intro s s' history hinv hsurrounds
    rw [hsurrounds.taken ref id]
    exact hinv

end Account

section Copies

variable {I : Type} [DecidableEq I] {env : Env} {groupText : UInt16 → String} {fw : Forwarder}
  {jobs : I → List LaneJob} {shared : Shared} {coal : I → Option CoalBuffer} {w : LaneWorld I}
  {c : Candidate} {ref : DedupRef}

variable (env fw) in
/-- A job that carries a copy of an object. -/
def CarriedBy (jobs : I → List LaneJob) (job : I × Nat) (c : Candidate) : Prop :=
  ∃ j, (jobs job.1)[job.2]? = some j ∧ j.offer env fw = some c

/-- Something of the object a job carries was queued or buffered. -/
def PutOut (w : LaneWorld I) (job : I × Nat) : Prop :=
  (progressOf (w.trace job)).sent ≠ [] ∨ (progressOf (w.trace job)).waiting ≠ []

theorem LaneProg.flushEgr_offers : (LaneProg.flushEgr env fw).Offers env fw none := by
  refine LaneProg.Follows.bind LaneProg.flushCoalesced_offers ?_ ?_
  · intro _ m _
    apply LaneProg.follows_takeQueue
    intro _ c ref hnone
    cases hnone
  · intro drop m _ c ref hnone
    cases hnone

theorem LaneJob.script_offers (hdec : DecodeLaws env) (hlaws : FragmentLaws env)
    (groupText : UInt16 → String) (job : LaneJob) :
    (job.script env groupText fw).Offers env fw (job.offer env fw) := by
  cases job with
  | emits op => exact op.script_offers hdec hlaws groupText
  | flushEgr => exact LaneProg.flushEgr_offers

theorem lanes_job {i : I} {n : Nat} {x : LaneProg Unit}
    (hjob : (lanes env groupText fw jobs).job i n = some x) :
    ∃ j, (jobs i)[n]? = some j ∧ x = j.script env groupText fw := by
  obtain ⟨j, hj, hx⟩ := Option.map_eq_some_iff.mp hjob
  exact ⟨j, hj, hx.symm⟩

/-- A job that has done something is in the program of its own entry in the lane. -/
theorem path_of_trace (hreach : Reachable (lanes env groupText fw jobs)
      (Proxy.start shared coal) w) {job : I × Nat} (hacted : w.trace job ≠ []) :
    ∃ j y, (jobs job.1)[job.2]? = some j ∧ Path (j.script env groupText fw) (w.trace job) y := by
  obtain ⟨x, y, hx, hpath⟩ := (hreach.standing job.1 job.2).path hacted
  obtain ⟨j, hj, rfl⟩ := lanes_job hx
  exact ⟨j, y, hj, hpath⟩

theorem concludes_of_result (hdec : DecodeLaws env) (hlaws : FragmentLaws env)
    (hreach : Reachable (lanes env groupText fw jobs) (Proxy.start shared coal) w)
    {job : I × Nat} {result : Except Drop Unit} (hresult : w.result job = some result)
    (hcarries : CarriedBy env fw jobs job c) (hdedup : c.dedup = some ref) :
    Finished env fw c ref result (progressOf (w.trace job)) := by
  obtain ⟨j, hj, hoffer⟩ := hcarries
  obtain ⟨x, hx, hpath⟩ := (hreach.standing job.1 job.2).of_result hresult
  obtain ⟨j', hj', rfl⟩ := lanes_job hx
  obtain rfl := Option.some.inj (hj.symm.trans hj')
  exact Script.Follows.path (j.script_offers hdec hlaws groupText) hpath c ref hoffer hdedup

theorem SentWhole.ne_nil {reqs : List EnqueueReq} (hsent : SentWhole env c reqs) :
    reqs ≠ [] := by
  cases hsent with
  | whole hsome => exact hsome
  | fragments hreqs =>
      rintro rfl
      obtain ⟨pieces, whole, hpieces, hwhole, _⟩ := hreqs
      obtain rfl : pieces = [] := List.map_eq_nil_iff.mp hpieces.symm
      cases hwhole [] (List.Perm.refl _)

theorem putOut_of_ok (hdec : DecodeLaws env) (hlaws : FragmentLaws env)
    (hreach : Reachable (lanes env groupText fw jobs) (Proxy.start shared coal) w)
    {job : I × Nat} (hresult : w.result job = some (.ok ()))
    (hcarries : CarriedBy env fw jobs job c) (hdedup : c.dedup = some ref) : PutOut w job := by
  have hfinished := concludes_of_result hdec hlaws hreach hresult hcarries hdedup
  rw [PutOut]
  generalize progressOf (w.trace job) = m at hfinished
  cases hfinished with
  | settled hanswer hsettled =>
      cases hsettled with
      | sent hsent => exact Or.inl hsent.ne_nil
      | waits flow => exact Or.inr (List.cons_ne_nil _ _)

theorem granted_of_putOut (hdec : DecodeLaws env) (hlaws : FragmentLaws env)
    (hreach : Reachable (lanes env groupText fw jobs) (Proxy.start shared coal) w)
    {job : I × Nat} (hcarries : CarriedBy env fw jobs job c) (hdedup : c.dedup = some ref)
    (hout : PutOut w job) :
    ∃ event ∈ w.trace job, claimOf event = some (ref, c.key, .won) ∨
      claimOf event = some (ref, c.key, .failedOpen) := by
  have hacted : w.trace job ≠ [] := by
    intro hnone
    rw [PutOut, hnone] at hout
    exact hout.elim (absurd rfl) (absurd rfl)
  obtain ⟨j, y, hj, hpath⟩ := path_of_trace hreach hacted
  obtain ⟨j', hj', hoffer⟩ := hcarries
  obtain rfl := Option.some.inj (hj.symm.trans hj')
  have hclaim : (j.offer env fw).bind Candidate.claim = some (ref, c.key) := by
    rw [hoffer, Option.bind_some, Candidate.claim, hdedup, Option.map_some]
  obtain ⟨answer, hasked, hanswer⟩ :=
    granted_of_sent (j.script_offers hdec hlaws groupText) hpath hout hclaim
  obtain ⟨event, hmem, hevent⟩ := mem_of_progressOf_claim hasked
  refine ⟨event, hmem, ?_⟩
  cases answer with
  | won => exact Or.inl hevent
  | lost => exact absurd rfl hanswer
  | failedOpen => exact Or.inr hevent

theorem length_filter_or_le {A : Type} (p q : A → Bool) (entries : List A) :
    (entries.filter fun entry => p entry || q entry).length ≤
      (entries.filter p).length + (entries.filter q).length := by
  simp only [← List.countP_eq_length_filter]
  induction entries with
  | nil => exact Nat.le_refl 0
  | cons entry rest ih =>
      simp only [List.countP_cons]
      cases p entry <;> cases q entry <;> simp <;> omega

/-- However the lanes interleave, an object goes out once at most for every time its
claim was free: at the start, or since a store forgot it, and once for every time a
store failed open. -/
theorem copies_put_out (hdec : DecodeLaws env) (hlaws : FragmentLaws env)
    (hreach : Reachable (lanes env groupText fw jobs) (Proxy.start shared coal) w)
    (ref : DedupRef) (key : Hash32) {copies : List (I × Nat)} (hnodup : copies.Nodup)
    (hcopies : ∀ job ∈ copies, PutOut w job ∧
      ∃ c, CarriedBy env fw jobs job c ∧ c.dedup = some ref ∧ c.key = key) :
    copies.length + ref.taken key shared.stores ≤
      ref.taken key w.shared.shared.stores + w.shared.forgotten ref key +
        answered w ref key .failedOpen := by
  have hgranted : copies.length ≤ answered w ref key .won + answered w ref key .failedOpen := by
    refine Nat.le_trans (length_le_of_traces w (fun event =>
      decide (claimOf event = some (ref, key, .won)) ||
        decide (claimOf event = some (ref, key, .failedOpen))) hnodup ?_)
      (length_filter_or_le _ _ _)
    intro job hjob
    obtain ⟨hout, c, hcarries, hdedup, rfl⟩ := hcopies job hjob
    obtain ⟨event, hmem, hevent⟩ := granted_of_putOut hdec hlaws hreach hcarries hdedup hout
    exact ⟨event, hmem, by simpa using hevent⟩
  have haccount := wins_account hreach ref key
  omega

end Copies

section Alone

variable {I : Type} [DecidableEq I] {env : Env} {groupText : UInt16 → String} {fw : Forwarder}
  {jobs : I → List LaneJob} (s : Proxy I) (i : I)

variable (env) in
/-- An operation of a lane that nobody disturbs. -/
def laneOn (op : LaneOp) (s : Proxy I) : op.Answer × Proxy I :=
  ((laneStep env op (s.view i)).1, s.put i (laneStep env op (s.view i)).2)

theorem Proxy.view_put (st : FwState) : (s.put i st).view i = st := by
  simp only [Proxy.view, Proxy.put, FwState.shared, Function.update_self]

theorem Proxy.put_put (st st' : FwState) : (s.put i st).put i st' = s.put i st' := by
  simp only [Proxy.put, Function.update_idem]

theorem Proxy.put_view : s.put i (s.view i) = s := by
  simp only [Proxy.view, Proxy.put, FwState.shared, Function.update_eq_self]

/-- A lane that nobody disturbs runs its program as one on its own view of the state. -/
theorem exec_laneOn {A : Type} (x : LaneProg A) :
    Script.exec (laneOn env i) x s =
      ((x.exec env (s.view i)).1, s.put i (x.exec env (s.view i)).2) := by
  induction x generalizing s with
  | done result => exact Prod.ext rfl (s.put_view i).symm
  | ask op next ih =>
      refine (ih _ _).trans ?_
      simp only [laneOn, Proxy.view_put, Proxy.put_put]
      rfl

/-- A lane may do an operation as a whole: among the orders of steps is the one in which
nobody else moves, and there the operation is the one of the forwarder. -/
theorem op_alone {start : Proxy I} {w : LaneWorld I}
    (hreach : Reachable (lanes env groupText fw jobs) start w) (hidle : w.running i = none)
    (op : EmitOp) (hjob : (jobs i)[w.finished i]? = some (.emits op)) :
    ∃ w', Reachable (lanes env groupText fw jobs) start w' ∧
      w'.shared = w.shared.put i (op.prog env groupText fw (w.shared.view i)).2 ∧
      w'.finished = Function.update w.finished i (w.finished i + 1) ∧
      w'.running = w.running ∧
      w'.result = Function.update w.result (i, w.finished i)
        (some (op.prog env groupText fw (w.shared.view i)).1) := by
  have hscript : (lanes env groupText fw jobs).job i (w.finished i) =
      some (op.script env groupText fw) := by
    simp only [lanes, hjob]
    rfl
  have hsteps : Relation.ReflTransGen (Step (lanes env groupText fw jobs)) w _ :=
    job_alone (laneOn env i) (fun op s => LaneDoes.performs op s) hidle hscript
  rw [exec_laneOn, op.exec_script] at hsteps
  exact ⟨_, hreach.steps hsteps, rfl, rfl, rfl, rfl⟩

end Alone

section Sample

open Reference

def anchorOp : EmitOp := .processAnchor (sampleAnchor (sampleID 1) (sampleTx 0)) none

def anchorJob : LaneJob := .emits anchorOp

/-- Two lanes get the same anchor, twice each. -/
def anchorLanes : Bool → List LaneJob :=
  fun _ => [anchorJob, anchorJob]

theorem anchorGates_sample :
    anchorGates Reference.env (sampleAnchor (sampleID 1) (sampleTx 0)) =
      .ok ⟨frameVerV6, sampleID 1, 0, zeroHash, sampleTx 0⟩ := by
  have hlength : (sampleTx 0).length < 2 ^ 32 := by
    rw [length_sampleTx]
    decide
  rw [anchorGates, decodeAnchor_sampleAnchor (sampleID 1) hlength]

def anchorCopy : Candidate :=
  ⟨some ⟨0, "tx"⟩, sampleID 1, sampleID 1, sampleAnchor (sampleID 1) (sampleTx 0), sampleTx 0,
    false⟩

theorem carriedBy_anchorLanes {job : Bool × Nat}
    (hjob : (anchorLanes job.1)[job.2]? = some anchorJob) :
    CarriedBy Reference.env dedupForwarder anchorLanes job anchorCopy := by
  refine ⟨_, hjob, ?_⟩
  rw [anchorJob, anchorOp, LaneJob.offer, EmitOp.offer, anchorOffer, anchorGates_sample]
  rfl

/-- The anchor goes out of the lane that comes first, and the other drops it. -/
theorem processAnchor_sample (st : FwState) :
    processAnchor Reference.env dedupForwarder (sampleAnchor (sampleID 1) (sampleTx 0)) none st =
      if ("tx", sampleID 1) ∈ st.stores 0 then (.error (.deduped "brc134"), st)
      else (.ok (), { st with
        stores := claimedStores ⟨0, "tx"⟩ (sampleID 1) st.stores
        queue := st.queue ++ [enqueueCacheable (sampleAnchor (sampleID 1) (sampleTx 0))
          (dedupForwarder.controlAddr groupBlockBroadcast) "anchor"] }) := by
  rw [processAnchor, Fw.gate_bind_ok anchorGates_sample]
  split
  · rename_i hclaimed
    have hlost : claimIngress dedupForwarder (sampleID 1) "brc134" st =
        (.error (.deduped "brc134"), st) := if_pos hclaimed
    rw [Fw.bind_apply, hlost]
  · rename_i hfree
    have hwon : claimIngress dedupForwarder (sampleID 1) "brc134" st =
        (.ok (), { st with stores := claimedStores ⟨0, "tx"⟩ (sampleID 1) st.stores }) :=
      if_neg hfree
    rw [Fw.bind_of_ok hwon]
    rfl

/-- The lanes with the anchor before anything happened. -/
def anchorStart : Proxy Bool :=
  Proxy.start state.shared fun _ => none

/-- The lanes once one of them has got its first anchor, which it sends. -/
theorem anchorLanes_first :
    ∃ w : LaneWorld Bool,
      Reachable (lanes Reference.env (fun _ => "control") dedupForwarder anchorLanes)
          anchorStart w ∧
        w.running = (fun _ => none) ∧ w.finished = Function.update (fun _ => 0) false 1 ∧
        w.result (false, 0) = some (.ok ()) ∧ ("tx", sampleID 1) ∈ w.shared.shared.stores 0 ∧
        w.shared.forgotten = fun _ _ => 0 := by
  have hinitial : Reachable (lanes Reference.env (fun _ => "control") dedupForwarder anchorLanes)
      anchorStart (World.initial anchorStart) := .initial
  obtain ⟨w, hreach, hshared, hfinished, hrunning, hresult⟩ :=
    op_alone false hinitial rfl anchorOp rfl
  rw [anchorOp, EmitOp.prog] at hshared hresult
  have hfree : ("tx", sampleID 1) ∉
      ((World.initial anchorStart : LaneWorld Bool).shared.view false).stores 0 :=
    Finset.notMem_empty _
  have hsent := (processAnchor_sample _).trans (if_neg hfree)
  refine ⟨w, hreach, hrunning, hfinished, ?_, ?_, hshared ▸ rfl⟩
  · rw [hresult]
    exact congrArg (fun ran => some ran.1) hsent
  · rw [hshared, hsent]
    exact mem_claimedStores.mpr (Or.inr ⟨rfl, rfl⟩)

/-- What the operations of a lane come to while the store does not answer. -/
def laneUnanswered (i : Bool) : (op : LaneOp) → Proxy Bool → op.Answer × Proxy Bool
  | .claim _ _, s => (ClaimAnswer.failedOpen, s)
  | op, s => laneOn Reference.env i op s

theorem laneUnanswered_does (i : Bool) (op : LaneOp) (s : Proxy Bool) :
    LaneDoes Reference.env i op s (laneUnanswered i op s).1 (laneUnanswered i op s).2 := by
  cases op with
  | claim ref id => exact .failsOpen ref id s
  | _ => exact .performs _ s

/-- A lane sends its next anchor though the store knows it, as long as it does not answer. -/
theorem anchorLane_unanswered {w : LaneWorld Bool}
    (hreach : Reachable (lanes Reference.env (fun _ => "control") dedupForwarder anchorLanes)
      anchorStart w) (i : Bool) (hidle : w.running i = none)
    (hjob : (anchorLanes i)[w.finished i]? = some anchorJob) :
    ∃ w' : LaneWorld Bool,
      Reachable (lanes Reference.env (fun _ => "control") dedupForwarder anchorLanes)
          anchorStart w' ∧
        w'.shared.forgotten = w.shared.forgotten ∧
        w'.result = Function.update w.result (i, w.finished i) (some (.ok ())) := by
  have hscript : (lanes Reference.env (fun _ => "control") dedupForwarder anchorLanes).job i
      (w.finished i) = some (anchorJob.script Reference.env (fun _ => "control")
        dedupForwarder) := by
    simp only [lanes, hjob]
    rfl
  have hran : ∀ s : Proxy Bool,
      (Script.exec (laneUnanswered i)
        (anchorJob.script Reference.env (fun _ => "control") dedupForwarder) s).1 = .ok () ∧
      (Script.exec (laneUnanswered i)
        (anchorJob.script Reference.env (fun _ => "control") dedupForwarder) s).2.forgotten =
          s.forgotten := by
    intro s
    rw [anchorJob, LaneJob.script, anchorOp, EmitOp.script, LaneProg.processAnchor,
      anchorGates_sample]
    generalize sampleAnchor (sampleID 1) (sampleTx 0) = raw
    generalize (⟨frameVerV6, sampleID 1, 0, zeroHash, sampleTx 0⟩ : Frame) = f
    exact ⟨rfl, rfl⟩
  have hsteps := job_alone (laneUnanswered i) (laneUnanswered_does i) hidle hscript
  generalize anchorJob.script Reference.env (fun _ => "control") dedupForwarder = script
    at hran hsteps
  rw [(hran w.shared).1] at hsteps
  exact ⟨_, hreach.steps hsteps, (hran w.shared).2, rfl⟩

/-- The anchor goes out three times: the store forgets it after the first, and does not
answer for the third. -/
theorem anchorLanes_thrice :
    ∃ w : LaneWorld Bool,
      Reachable (lanes Reference.env (fun _ => "control") dedupForwarder anchorLanes)
          anchorStart w ∧
        (∀ job ∈ [(false, 0), (true, 0), (false, 1)], w.result job = some (.ok ())) ∧
        w.shared.forgotten ⟨0, "tx"⟩ (sampleID 1) = 1 := by
  obtain ⟨w, hreach, hrunning, hfinished, hfirst, hclaimed, hnone⟩ := anchorLanes_first
  have hforgets := hreach.step (.surrounds
    (.forgets hclaimed : Surrounds _ (w.shared.forget ⟨0, "tx"⟩ (sampleID 1))))
  obtain ⟨w', hreach', hshared, hfinished', hrunning', hresult'⟩ := op_alone true hforgets
    (congrFun hrunning true) anchorOp (congrFun hfinished true ▸ rfl)
  have hfree : ("tx", sampleID 1) ∉
      ((w.shared.forget ⟨0, "tx"⟩ (sampleID 1)).view true).stores 0 :=
    Finset.notMem_erase _ _
  have hsent := (processAnchor_sample _).trans (if_neg hfree)
  have hnext : w'.finished false = 1 := by
    rw [hfinished']
    exact congrFun hfinished false
  obtain ⟨w'', hreach'', hforgotten, hresult''⟩ := anchorLane_unanswered hreach' false
    (hrunning' ▸ congrFun hrunning false) (hnext ▸ rfl)
  refine ⟨w'', hreach'', ?_, ?_⟩
  · have hsecond : w'.result = Function.update w.result (true, 0) (some (.ok ())) := by
      rw [hresult']
      exact congrArg₂ (Function.update w.result) (congrArg (true, ·) (congrFun hfinished true))
        (congrArg (fun ran => some ran.1) hsent)
    rw [hresult'', hnext, hsecond]
    simp only [List.forall_mem_cons]
    refine ⟨?_, ?_, Function.update_self .., List.forall_mem_nil _⟩
    · rw [Function.update_of_ne (by decide), Function.update_of_ne (by decide), hfirst]
    · rw [Function.update_of_ne (by decide), Function.update_self]
  · rw [hforgotten, hshared]
    simp only [Proxy.put, Proxy.forget, Function.update_self, hnone]

/-- The premises hold there: three copies went out, for one claim that was taken, forgotten
and taken again, and one that failed open. -/
theorem copies_put_out_anchor :
    ∃ w : LaneWorld Bool,
      w.shared.forgotten ⟨0, "tx"⟩ (sampleID 1) = 1 ∧
        3 + DedupRef.taken ⟨0, "tx"⟩ (sampleID 1) anchorStart.shared.stores ≤
          DedupRef.taken ⟨0, "tx"⟩ (sampleID 1) w.shared.shared.stores +
            w.shared.forgotten ⟨0, "tx"⟩ (sampleID 1) +
              answered w ⟨0, "tx"⟩ (sampleID 1) .failedOpen := by
  obtain ⟨w, hreach, hsent, hforgotten⟩ := anchorLanes_thrice
  have hcopies : ∀ job ∈ [(false, 0), (true, 0), (false, 1)], PutOut w job ∧
      ∃ c, CarriedBy Reference.env dedupForwarder anchorLanes job c ∧
        c.dedup = some ⟨0, "tx"⟩ ∧ c.key = sampleID 1 := by
    intro job hjob
    have hcarries : CarriedBy Reference.env dedupForwarder anchorLanes job anchorCopy := by
      refine carriedBy_anchorLanes ?_
      simp only [List.mem_cons, List.not_mem_nil, or_false] at hjob
      rcases hjob with rfl | rfl | rfl <;> rfl
    exact ⟨putOut_of_ok decodeLaws fragmentLaws hreach (hsent job hjob) hcarries rfl,
      anchorCopy, hcarries, rfl, rfl⟩
  exact ⟨w, hforgotten, copies_put_out decodeLaws fragmentLaws hreach ⟨0, "tx"⟩ (sampleID 1)
    (by decide) hcopies⟩

end Sample

end ShardProxy
