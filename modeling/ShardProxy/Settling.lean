/-
What dispatching a datagram comes to, on any socket.  The gates, budgets and
claims of a path read and change the ledger only, the claims made and the
budgets left; what follows them is one action on the counters, the queue and
the coalescing buffer.  Two states with one ledger therefore take the same
action, whatever else they hold.
-/
import ShardProxy.PreFraming

namespace ShardProxy

open ByteField Dispenser

/-- The claims made and the budgets left. -/
structure Ledger where
  stores : Nat → Finset (String × Hash32)
  beefLimit : BEEFLimiter

def FwState.ledger (st : FwState) : Ledger :=
  ⟨st.stores, st.beefLimit⟩

def FwState.withLedger (st : FwState) (ledger : Ledger) : FwState :=
  { st with stores := ledger.stores, beefLimit := ledger.beefLimit }

@[simp] theorem FwState.ledger_withLedger (st : FwState) (ledger : Ledger) :
    (st.withLedger ledger).ledger = ledger := rfl

@[simp] theorem FwState.withLedger_withLedger (st : FwState) (first second : Ledger) :
    (st.withLedger first).withLedger second = st.withLedger second := rfl

theorem FwState.withLedger_self {st : FwState} {ledger : Ledger} (hledger : st.ledger = ledger) :
    st.withLedger ledger = st := by
  subst hledger
  rfl

theorem FwState.ready_withLedger (st : FwState) (ledger : Ledger) :
    Ready st (st.withLedger ledger) := ⟨rfl, rfl, rfl, rfl⟩

theorem fragments_of_none (fw : Forwarder) {plan : FragPlan}
    (hsplit : (none : Option FragPlan) = some plan) : fw.fragments plan.payload := by
  cases hsplit

/-- A relayed bundle leaves as it came. -/
def relayOut (fw : Forwarder) (raw : Bytes) : Outgoing fw where
  raw := raw
  flow := none
  split := none
  reqs sent := [enqueueData sent (fw.addrFor (bundleGroup raw)) (bundleGroup raw)]
  split_fragments := @fragments_of_none fw

/-- What is left to do for a datagram after its claim. -/
inductive Action (fw : Forwarder) where
  | tx (frame : Bytes) (f : Frame)
  | send (o : Outgoing fw)

/-- Do it: a transaction may wait for a bundle, everything else is sent. -/
def Action.act (env : Env) {fw : Forwarder} (src : Option NetAddr) : Action fw → Fw Unit
  | .tx frame f => emitTx env fw frame f src
  | .send o => o.send env

/-- What is sent for an action that does not wait. -/
def Action.out {fw : Forwarder} (bridging : Option Engine) (src : Option NetAddr) :
    Action fw → Outgoing fw
  | .tx frame f =>
      if f.version = frameVerV2 then txOut fw bridging frame f src
      else legacyOut fw bridging frame f
  | .send o => o

/-- The action puts a member into the coalescing buffer. -/
def Action.Waits (env : Env) {fw : Forwarder} (src : Option NetAddr) (st : FwState) :
    Action fw → Prop
  | .tx _ f => ShardProxy.Waits env fw st f src
  | .send _ => False

theorem Action.eq_tx_of_waits {env : Env} {fw : Forwarder} {src : Option NetAddr}
    {st : FwState} {action : Action fw} (hwaits : action.Waits env src st) :
    ∃ frame f s, action = .tx frame f ∧ src = some s := by
  cases action with
  | send o => exact absurd hwaits id
  | tx frame f =>
      obtain ⟨s, hsrc⟩ := Option.isSome_iff_exists.mp hwaits.1
      exact ⟨frame, f, s, rfl, hsrc⟩

theorem Action.act_of_not_waits {env : Env} {fw : Forwarder} {src : Option NetAddr}
    {st : FwState} {action : Action fw} (hwaits : ¬ action.Waits env src st) :
    action.act env src st = (action.out st.bridging src).send env st := by
  cases action with
  | send o => rfl
  | tx frame f =>
      by_cases hversion : f.version = frameVerV2
      · rw [Action.act, Action.out, if_pos hversion]
        exact emitTx_of_not_waits env fw hversion frame hwaits
      · rw [Action.act, Action.out, if_neg hversion]
        exact emitTx_of_legacy env fw hversion frame src st

/-- A computation that reads and changes the ledger only, with what its results
have in common. -/
def LedgerOnly {A : Type} (x : Fw A) (R : A → Prop) : Prop :=
  ∀ ledger, ∃ result after, (∀ a, result = .ok a → R a) ∧
    ∀ st : FwState, st.ledger = ledger → x st = (result, st.withLedger after)

/-- A computation that ends, by its ledger alone, in a drop or in an action. -/
def Settles (env : Env) {fw : Forwarder} (src : Option NetAddr) (prog : Fw Unit)
    (P : Action fw → Prop) : Prop :=
  ∀ ledger,
    (∃ drop after, ∀ st : FwState, st.ledger = ledger →
      prog st = (.error drop, st.withLedger after)) ∨
    ∃ action after, P action ∧ ∀ st : FwState, st.ledger = ledger →
      prog st = action.act env src (st.withLedger after)

section Rules

variable {A B : Type} {R : A → Prop}

/-- What a computation by the ledger ends in has the property. -/
theorem LedgerOnly.of_ok {x : Fw A} (hx : LedgerOnly x R) {st after : FwState} {a : A}
    (hrun : x st = (.ok a, after)) : R a := by
  obtain ⟨result, _, hresult, hsame⟩ := hx st.ledger
  have hfirst := congrArg Prod.fst ((hsame st rfl).symm.trans hrun)
  exact hresult a hfirst

theorem LedgerOnly.gate (check : Except Drop A) :
    LedgerOnly (Fw.gate check) fun a => check = .ok a := by
  intro ledger
  refine ⟨check, ledger, fun a ha => ha, ?_⟩
  intro st hst
  rw [Fw.gate_apply, FwState.withLedger_self hst]

theorem LedgerOnly.pure {result : A} (hresult : R result) :
    LedgerOnly (Pure.pure result : Fw A) R := by
  intro ledger
  refine ⟨.ok result, ledger, ?_, ?_⟩
  · rintro a ⟨⟩
    exact hresult
  · intro st hst
    rw [Fw.pure_apply, FwState.withLedger_self hst]

theorem LedgerOnly.claim (dedup : Option DedupRef) (key : Hash32) (frameType : String) :
    LedgerOnly (claimIngressIn dedup key frameType) fun _ => True := by
  intro ledger
  cases dedup with
  | none =>
      refine ⟨.ok (), ledger, fun _ _ => trivial, ?_⟩
      intro st hst
      rw [FwState.withLedger_self hst]
      rfl
  | some ref =>
      by_cases hclaimed : (ref.keySpace, key) ∈ ledger.stores ref.store
      · refine ⟨.error (.deduped frameType), ledger, fun _ _ => trivial, ?_⟩
        intro st hst
        rw [FwState.withLedger_self hst]
        subst hst
        exact claimIngressIn_of_mem hclaimed frameType
      · refine ⟨.ok (), ⟨claimedStores ref key ledger.stores, ledger.beefLimit⟩,
          fun _ _ => trivial, ?_⟩
        intro st hst
        subst hst
        exact claimIngressIn_of_not_mem hclaimed frameType

theorem LedgerOnly.charge (env : Env) (src : Option NetAddr) (n : Nat) (now : Time) :
    LedgerOnly (chargeBudget env src n now) fun _ => True := by
  intro ledger
  refine ⟨budgetVerdict (ledger.beefLimit.allow env src n now).1,
    ⟨ledger.stores, (ledger.beefLimit.allow env src n now).2⟩, fun _ _ => trivial, ?_⟩
  intro st hst
  subst hst
  exact chargeBudget_apply src n now st

theorem LedgerOnly.bind {S : B → Prop} {x : Fw A} {next : A → Fw B} (hx : LedgerOnly x R)
    (hnext : ∀ a, R a → LedgerOnly (next a) S) : LedgerOnly (x >>= next) S := by
  intro ledger
  obtain ⟨result, middle, hresult, hrun⟩ := hx ledger
  cases result with
  | error drop =>
      refine ⟨.error drop, middle, ?_, ?_⟩
      · rintro a ⟨⟩
      · intro st hst
        exact Fw.bind_of_error (hrun st hst) next
  | ok a =>
      obtain ⟨result, after, hS, hlater⟩ := hnext a (hresult a rfl) middle
      refine ⟨result, after, hS, ?_⟩
      intro st hst
      rw [Fw.bind_of_ok (hrun st hst) next, hlater (st.withLedger middle) rfl,
        FwState.withLedger_withLedger]

variable {env : Env} {fw : Forwarder} {src : Option NetAddr} {P : Action fw → Prop}

theorem Settles.fail (drop : Drop) : Settles env src (Fw.fail drop) P := by
  intro ledger
  refine Or.inl ⟨drop, ledger, ?_⟩
  intro st hst
  rw [Fw.fail_apply, FwState.withLedger_self hst]

theorem Settles.act (action : Action fw) (haction : P action) :
    Settles env src (action.act env src) P := by
  intro ledger
  refine Or.inr ⟨action, ledger, haction, ?_⟩
  intro st hst
  rw [FwState.withLedger_self hst]

theorem Settles.bind {x : Fw A} {next : A → Fw Unit} (hx : LedgerOnly x R)
    (hnext : ∀ a, R a → Settles env src (next a) P) : Settles env src (x >>= next) P := by
  intro ledger
  obtain ⟨result, middle, hresult, hrun⟩ := hx ledger
  cases result with
  | error drop =>
      refine Or.inl ⟨drop, middle, ?_⟩
      intro st hst
      exact Fw.bind_of_error (hrun st hst) next
  | ok a =>
      rcases hnext a (hresult a rfl) middle with
        ⟨drop, after, hdrop⟩ | ⟨action, after, haction, hact⟩
      · refine Or.inl ⟨drop, after, ?_⟩
        intro st hst
        rw [Fw.bind_of_ok (hrun st hst) next, hdrop (st.withLedger middle) rfl,
          FwState.withLedger_withLedger]
      · refine Or.inr ⟨action, after, haction, ?_⟩
        intro st hst
        rw [Fw.bind_of_ok (hrun st hst) next, hact (st.withLedger middle) rfl,
          FwState.withLedger_withLedger]

end Rules

section Paths

variable (env : Env) (fw : Forwarder)

/-- The actions dispatching a datagram may come to. -/
inductive Admits (raw : Bytes) (src : Option NetAddr) : Action fw → Prop where
  | tx {frame : Bytes} {f : Frame} {verify : Bool} (hframe : TxFrame env fw raw frame)
      (hgates : txGates env fw frame verify = .ok f) : Admits raw src (.tx frame f)
  | block {bf : BlockFrame} (hframed : framed raw)
      (hversion : versionByte raw = some frameVerV4) (hgates : blockGates env fw raw = .ok bf) :
      Admits raw src (.send (blockOut fw raw bf src))
  | subtreeData {sf : SubtreeDataFrame} (hframed : framed raw)
      (hversion : versionByte raw = some frameVerV5) (hgates : subtreeGates env fw raw = .ok sf) :
      Admits raw src (.send (subtreeOut fw raw sf src))
  | anchor (hanchor : IsAnchor env raw) : Admits raw src (.send (anchorOut fw raw src))
  | beef {frame : Bytes} {checkContentID : Bool} {plane : PlaneEngine} {bf : BEEFFrame}
      {topics : Nat} (hsubmits : SubmitsBEEF env fw raw src frame checkContentID)
      (hgates : beefGates env fw frame src = .ok (plane, bf, topics)) :
      Admits raw src (.send (beefOut fw ⟨(setDeliverCount fw bf frame src topics).1,
        plane.groupIndex bf.topicID, (setDeliverCount fw bf frame src topics).2⟩ src))
  | relay (hframed : framed raw) (hversion : versionByte raw = some frameVerV8)
      (hgates : bundleGates raw = .ok ()) : Admits raw src (.send (relayOut fw raw))

variable {env fw} {raw : Bytes} {src : Option NetAddr} {now : Time}

theorem process_settles {P : Action fw → Prop} {frame : Bytes} {verify : Bool}
    (hP : ∀ f, txGates env fw frame verify = .ok f → P (.tx frame f)) :
    Settles env src (process env fw frame src verify) P := by
  refine Settles.bind (LedgerOnly.gate _) ?_
  intro f hgates
  have hact : Settles env src (emitTx env fw frame f src) P :=
    Settles.act (.tx frame f) (hP f hgates)
  by_cases hversion : f.version = frameVerV2
  · simp only [hversion, ↓reduceIte]
    exact Settles.bind (LedgerOnly.claim _ _ _) fun _ _ => hact
  · simp only [hversion, ↓reduceIte]
    exact hact

theorem checkBEEF_reads (frame : Bytes) (checkContentID : Bool) :
    LedgerOnly (checkBEEF env fw frame src now checkContentID) fun checked =>
      ∃ plane bf topics, beefGates env fw frame src = .ok (plane, bf, topics) ∧
        checked = ⟨(setDeliverCount fw bf frame src topics).1, plane.groupIndex bf.topicID,
          (setDeliverCount fw bf frame src topics).2⟩ := by
  refine LedgerOnly.bind (LedgerOnly.gate _) ?_
  rintro ⟨plane, bf, topics⟩ hgates
  refine LedgerOnly.bind (LedgerOnly.charge env src _ now) fun _ _ => ?_
  refine LedgerOnly.bind (LedgerOnly.gate _) fun _ _ => ?_
  rw [claimBEEFIngress_eq]
  refine LedgerOnly.bind (LedgerOnly.claim _ _ _) fun _ _ => ?_
  refine LedgerOnly.pure ⟨plane, bf, topics, hgates, ?_⟩
  have htopic : (setDeliverCount fw bf frame src topics).1.topicID = bf.topicID :=
    setDeliverCount_topicID bf frame topics
  exact congrArg (fun topic => CheckedBEEF.mk _ (plane.groupIndex topic) _) htopic

theorem processBEEF_settles {frame : Bytes} {checkContentID : Bool}
    (hsubmits : SubmitsBEEF env fw raw src frame checkContentID) :
    Settles env src (processBEEF env fw frame src now checkContentID)
      (Admits env fw raw src) := by
  refine Settles.bind (checkBEEF_reads frame checkContentID) ?_
  rintro checked ⟨plane, bf, topics, hgates, rfl⟩
  rw [emitBEEF_eq]
  exact Settles.act (.send _) (.beef hsubmits hgates)

variable (env fw) in
/-- Dispatching a datagram settles it, on every class of socket. -/
theorem dispatchClass_settles (raw : Bytes) (src : Option NetAddr) (now : Time)
    (cls : IngressClass) :
    Settles env src (dispatchClass env fw raw src now cls) (Admits env fw raw src) := by
  unfold dispatchClass
  by_cases hframed : framed raw
  · rw [if_neg (not_not_intro hframed)]
    split_ifs with h4 _ h5 _ h6
    · exact Settles.fail _
    · refine Settles.bind (LedgerOnly.gate _) fun bf hgates => ?_
      refine Settles.bind (LedgerOnly.claim _ _ _) fun _ _ => ?_
      rw [emitBlock_eq]
      exact Settles.act (.send _) (.block hframed h4 hgates)
    · exact Settles.fail _
    · refine Settles.bind (LedgerOnly.gate _) fun sf hgates => ?_
      refine Settles.bind (LedgerOnly.claim _ _ _) fun _ _ => ?_
      rw [emitSubtreeData_eq]
      exact Settles.act (.send _) (.subtreeData hframed ‹_› hgates)
    · exact Settles.fail _
    · refine Settles.bind (LedgerOnly.gate _) fun f hgates => ?_
      refine Settles.bind (LedgerOnly.claim _ _ _) fun _ _ => ?_
      rw [emitAnchor_eq]
      exact Settles.act (.send (anchorOut fw raw src))
        (.anchor ⟨hframed, ‹_›, f, anchorGates_ok hgates⟩)
    · exact processBEEF_settles (.framed hframed ‹_›)
    · exact Settles.fail _
    · refine Settles.bind (LedgerOnly.gate _) fun _ hgates => ?_
      exact Settles.act (.send (relayOut fw raw)) (.relay hframed ‹_› hgates)
    · exact Settles.fail _
    · exact process_settles fun f hgates => .tx (.framed hframed h6) hgates
  · rw [if_pos hframed]
    split_ifs
    · rw [submitBEEF, dispatchBEEF]
      cases hprepared : (prepareBEEF env fw raw src).frame with
      | none => exact Settles.fail _
      | some frame => exact processBEEF_settles (.record hframed hprepared)
    · exact Settles.fail _
    · refine Settles.bind (LedgerOnly.gate _) fun frame hgates => ?_
      exact process_settles fun f hchecks => .tx (.bare hframed hgates) hchecks

variable (env fw) in
/-- All that can come of a datagram, on every class of socket. -/
inductive DispatchStep (raw : Bytes) (src : Option NetAddr) (st : FwState) : FwState → Prop where
  | dropped {after : FwState} (hready : Ready st after) : DispatchStep raw src st after
  | waiting {frame : Bytes} {f : Frame} {s : NetAddr} {before : FwState} (hsrc : src = some s)
      (hadmits : Admits env fw raw src (.tx frame f)) (hwaits : Waits env fw st f src)
      (hready : Ready st before) :
      DispatchStep raw src st { before with
        coal := before.coal.map fun coal => coal.add (txFlow fw f s) ⟨f.txID, f.payload⟩ }
  | sent {action : Action fw} {before : FwState} (hadmits : Admits env fw raw src action)
      (hwaits : ¬ action.Waits env src st) (hfit : ¬ (action.out st.bridging src).Overflows)
      (hready : Ready st before) :
      DispatchStep raw src st { before with
        chains := (action.out st.bridging src).chainsAfter st.chains
        queue := st.queue ++ (action.out st.bridging src).requests env st.chains }

theorem Action.waits_iff {st before : FwState} (hready : Ready st before) (action : Action fw) :
    action.Waits env src before ↔ action.Waits env src st := by
  cases action with
  | send o => exact Iff.rfl
  | tx frame f =>
      simp only [Action.Waits, ShardProxy.Waits, coalesces, hready.coal, hready.bridging]

theorem dispatchClass_step (hfrag : FragmentLaws env) (raw : Bytes) (src : Option NetAddr)
    (now : Time) (cls : IngressClass) (st : FwState) :
    DispatchStep env fw raw src st (dispatchClass env fw raw src now cls st).2 := by
  rcases dispatchClass_settles env fw raw src now cls st.ledger with
    ⟨drop, ledger, hdrop⟩ | ⟨action, ledger, hadmits, hact⟩
  · rw [hdrop st rfl]
    exact .dropped (st.ready_withLedger ledger)
  · rw [hact st rfl]
    have hready := st.ready_withLedger ledger
    by_cases hwaits : action.Waits env src (st.withLedger ledger)
    · obtain ⟨frame, f, s, rfl, rfl⟩ := Action.eq_tx_of_waits hwaits
      rw [Action.act, emitTx_of_waits env fw frame hwaits]
      exact .waiting rfl hadmits ((Action.waits_iff hready (.tx frame f)).mp hwaits) hready
    · have hstill := fun hwaiting => hwaits ((Action.waits_iff hready action).mpr hwaiting)
      rw [Action.act_of_not_waits hwaits, hready.bridging]
      by_cases hover : (action.out st.bridging src).Overflows
      · rw [Outgoing.send_overflow _ hover]
        exact .dropped hready
      · rw [Outgoing.send_apply _ hfrag _ hover, hready.chains, hready.queue]
        exact .sent hadmits hstill hover hready

theorem byteAt_of_versionByte {version : UInt8} (hversion : versionByte raw = some version) :
    byteAt raw 6 = version := by
  rw [versionByte] at hversion
  split at hversion
  · exact Option.some.inj hversion
  · cases hversion

/-- A frame that is stamped has its whole header and is no V1 frame. -/
theorem Admits.stampable (hdec : DecodeLaws env) (hkeys : HashKeyLaws env)
    (hseq : SeqNumLaws env) {action : Action fw} (hadmits : Admits env fw raw src action)
    {bridging : Option Engine} {flow : ChainKey}
    (hflow : (action.out bridging src).flow = some flow) :
    headerSize ≤ (action.out bridging src).raw.length ∧
      byteAt (action.out bridging src).raw 6 ≠ frameVerV1 := by
  cases hadmits with
  | @tx frame f verify hframe hgates =>
      have hdecode := txGates_ok hgates
      by_cases hversion : f.version = frameVerV2
      · simp only [Action.out, hversion, ↓reduceIte, txOut]
        refine ⟨(hdec.decode_size hdecode hversion).1, ?_⟩
        rw [hkeys.decode_byte6 hdecode, hversion]
        decide
      · simp only [Action.out, hversion, ↓reduceIte, legacyOut] at hflow
        cases hflow
  | block hframed hversion hgates =>
      refine ⟨(hdec.decodeBlock_size (blockGates_ok hgates)).1, ?_⟩
      change byteAt raw 6 ≠ _
      rw [byteAt_of_versionByte hversion]
      decide
  | subtreeData hframed hversion hgates =>
      refine ⟨(hdec.decodeSubtreeData_size (subtreeGates_ok hgates)).1, ?_⟩
      change byteAt raw 6 ≠ _
      rw [byteAt_of_versionByte hversion]
      decide
  | anchor hanchor =>
      obtain ⟨f, hdecode⟩ := hanchor.decodes
      refine ⟨hdec.decodeAnchor_size hdecode, ?_⟩
      change byteAt raw 6 ≠ _
      rw [byteAt_of_versionByte hanchor.version]
      decide
  | @beef frame checkContentID plane bf topics hsubmits hgates =>
      have hdecode := beefGates_ok hgates
      have hset : ∃ bytes : Option UInt8, (setDeliverCount fw bf frame src topics).2 =
          withByte7 bytes frame := by
        cases src with
        | none => exact ⟨none, rfl⟩
        | some src => exact ⟨some _, rfl⟩
      obtain ⟨bytes, hset⟩ := hset
      simp only [Action.out, beefOut, hset]
      have hbyte := hseq.decodeBEEF_version hdecode
      cases bytes with
      | none =>
          refine ⟨(hdec.decodeBEEF_size hdecode).1, ?_⟩
          rw [withByte7, hbyte]
          decide
      | some byte =>
          rw [withByte7, List.length_set, byteAt_set_ne _ byte (by decide), hbyte]
          exact ⟨(hdec.decodeBEEF_size hdecode).1, by decide⟩
  | relay hframed hversion hgates => cases hflow

/-- Without a successor layout a whole frame makes one request. -/
theorem Admits.reqs_single {action : Action fw} (hadmits : Admits env fw raw src action) :
    ∃ req : EnqueueReq, ∀ sent, (action.out none src).reqs sent = [{ req with raw := sent }] := by
  have hdata : ∀ (dst : UDPAddr) (idx : UInt32) (sent : Bytes), [enqueueData sent dst idx] =
      [{ enqueueData [] dst idx with raw := sent }] := fun _ _ _ => rfl
  have hctrl : ∀ (dst : UDPAddr) (label : String) (sent : Bytes),
      [enqueueCacheable sent dst label] =
        [{ enqueueCacheable [] dst label with raw := sent }] := fun _ _ _ => rfl
  cases hadmits with
  | @tx frame f verify hframe hgates =>
      by_cases hversion : f.version = frameVerV2
      · simp only [Action.out, hversion, ↓reduceIte]
        exact ⟨_, hdata _ _⟩
      · simp only [Action.out, hversion, ↓reduceIte]
        exact ⟨_, hdata _ _⟩
  | block hframed hversion hgates => exact ⟨_, hctrl _ _⟩
  | subtreeData hframed hversion hgates => exact ⟨_, hctrl _ _⟩
  | anchor hanchor => exact ⟨_, hctrl _ _⟩
  | beef hsubmits hgates => exact ⟨_, hdata _ _⟩
  | relay hframed hversion hgates => exact ⟨_, hdata _ _⟩

end Paths

end ShardProxy
