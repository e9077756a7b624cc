/-
Where `DispatchClass` sends a datagram, and all that can come of it on an open
socket: a drop, a member that waits for a bundle, an object that is sent, or a
bundle that is relayed as it came.
-/
import ShardProxy.ClaimDiscipline

namespace ShardProxy

open ByteField

inductive Route where
  | entry (point : Entry)
  | bundle
  | refuse (drop : Drop)

section Route

variable (env : Env) (fw : Forwarder)

/-- The routing decision of `DispatchClass`. -/
def route (raw : Bytes) (src : Option NetAddr) (cls : IngressClass) : Route :=
  if ¬ framed raw then
    if 2 ≤ raw.length ∧ uint16At raw 0 = beefRecordTag then
      .entry (.dispatchBEEF (prepareBEEF env fw raw src))
    else if cls = .beef then .refuse (.packet .nonBEEFOnBEEFLane)
    else .entry (.bareTx raw)
  else if versionByte raw = some frameVerV4 then
    if cls ≠ .privileged then .refuse (.privileged (privilegedFrameType raw))
    else .entry (.block raw)
  else if versionByte raw = some frameVerV5 then
    if cls ≠ .privileged then .refuse (.privileged (privilegedFrameType raw))
    else .entry (.subtreeData raw)
  else if versionByte raw = some frameVerV6 then
    if cls = .beef then .refuse (.packet .nonBEEFOnBEEFLane) else .entry (.anchor raw)
  else if versionByte raw = some frameVerV9 then .entry (.beef raw)
  else if versionByte raw = some frameVerV8 then
    if cls = .beef then .refuse (.packet .nonBEEFOnBEEFLane) else .bundle
  else if cls = .beef then .refuse (.packet .nonBEEFOnBEEFLane)
  else .entry (.process raw)

def Route.run (raw : Bytes) (src : Option NetAddr) (now : Time) : Route → Fw Unit
  | .entry point => point.run env fw src now
  | .bundle => processBundle fw raw
  | .refuse drop => Fw.fail drop

theorem dispatchClass_eq_route (raw : Bytes) (src : Option NetAddr) (now : Time)
    (cls : IngressClass) :
    dispatchClass env fw raw src now cls =
      (route env fw raw src cls).run env fw raw src now := by
  unfold dispatchClass route
  split_ifs <;> rfl

/-- The destinations an open socket has: no block and no subtree data. -/
inductive OpenRoute (raw : Bytes) (src : Option NetAddr) (cls : IngressClass) :
    Route → Prop where
  | record (hframed : ¬ framed raw) :
      OpenRoute raw src cls (.entry (.dispatchBEEF (prepareBEEF env fw raw src)))
  | bare (hframed : ¬ framed raw) (hcls : cls ≠ .beef) :
      OpenRoute raw src cls (.entry (.bareTx raw))
  | anchor (hframed : framed raw) (hversion : versionByte raw = some frameVerV6)
      (hcls : cls ≠ .beef) : OpenRoute raw src cls (.entry (.anchor raw))
  | beef (hframed : framed raw) (hversion : versionByte raw = some frameVerV9) :
      OpenRoute raw src cls (.entry (.beef raw))
  | bundle (hframed : framed raw) (hversion : versionByte raw = some frameVerV8)
      (hcls : cls ≠ .beef) : OpenRoute raw src cls .bundle
  | frame (hframed : framed raw) (hanchor : versionByte raw ≠ some frameVerV6)
      (hcls : cls ≠ .beef) : OpenRoute raw src cls (.entry (.process raw))
  | refuse (drop : Drop) (hanchor : versionByte raw ≠ some frameVerV6 ∨ cls = .beef) :
      OpenRoute raw src cls (.refuse drop)

theorem route_open (raw : Bytes) (src : Option NetAddr) {cls : IngressClass}
    (hcls : cls ≠ .privileged) :
    OpenRoute env fw raw src cls (route env fw raw src cls) := by
  unfold route
  by_cases hframed : framed raw
  · rw [if_neg (not_not_intro hframed), if_pos hcls, if_pos hcls]
    split_ifs with h4 h5 h6 hbeef hbeef h9 h8
    · exact .refuse _ (.inl (by rw [h4]; decide))
    · exact .refuse _ (.inl (by rw [h5]; decide))
    · exact .refuse _ (.inr hbeef)
    · exact .anchor hframed h6 hbeef
    · exact .beef hframed ‹_›
    · exact .refuse _ (.inr ‹_›)
    · exact .bundle hframed ‹_› ‹_›
    · exact .refuse _ (.inr ‹_›)
    · exact .frame hframed h6 ‹_›
  · rw [if_pos hframed]
    split_ifs with hrecord hbeef
    · exact .record hframed
    · exact .refuse _ (.inr hbeef)
    · exact .bare hframed hbeef

end Route

/-- Claims and budgets apart, two states are the same. -/
structure Ready (st before : FwState) : Prop where
  chains : before.chains = st.chains
  queue : before.queue = st.queue
  coal : before.coal = st.coal
  bridging : before.bridging = st.bridging

theorem Ready.refl (st : FwState) : Ready st st := ⟨rfl, rfl, rfl, rfl⟩

theorem Ready.charged {st before : FwState} (hready : Ready st before) (limiter : BEEFLimiter) :
    Ready st { before with beefLimit := limiter } :=
  ⟨hready.chains, hready.queue, hready.coal, hready.bridging⟩

theorem Ready.claimed {st before : FwState} (hready : Ready st before)
    (stores : Nat → Finset (String × Hash32)) : Ready st { before with stores := stores } :=
  ⟨hready.chains, hready.queue, hready.coal, hready.bridging⟩

theorem claimIngressIn_ready (dedup : Option DedupRef) (key : Hash32) (frameType : String)
    {st before : FwState} (hready : Ready st before) :
    claimIngressIn dedup key frameType before = (.error (.deduped frameType), before) ∨
      ∃ after, Ready st after ∧ claimIngressIn dedup key frameType before = (.ok (), after) := by
  cases dedup with
  | none => exact Or.inr ⟨before, hready, rfl⟩
  | some ref =>
      by_cases hclaimed : (ref.keySpace, key) ∈ before.stores ref.store
      · exact Or.inl (claimIngressIn_of_mem hclaimed frameType)
      · exact Or.inr ⟨_, hready.claimed _, claimIngressIn_of_not_mem hclaimed frameType⟩

section Cases

variable {env : Env} {fw : Forwarder} {src : Option NetAddr} {now : Time} {st : FwState}

/-- `process` drops a frame with the state as it was, or sends it. -/
theorem process_cases (raw : Bytes) (verify : Bool) :
    (∃ drop, process env fw raw src verify st = (.error drop, st)) ∨
      ∃ f before, txGates env fw raw verify = .ok f ∧ Ready st before ∧
        process env fw raw src verify st = emitTx env fw raw f src before := by
  cases hgates : txGates env fw raw verify with
  | error drop => exact Or.inl ⟨drop, by rw [process, Fw.gate_bind_error hgates]⟩
  | ok f =>
      by_cases hversion : f.version = frameVerV2
      · have hrun : process env fw raw src verify st =
            (claimIngressIn fw.txDedup f.txID "brc124" >>= fun _ =>
              emitTx env fw raw f src) st := by
          rw [process, Fw.gate_bind_ok hgates]
          simp only [hversion, ↓reduceIte, claimIngress]
        rcases claimIngressIn_ready fw.txDedup f.txID "brc124" (Ready.refl st) with
          hlost | ⟨after, hready, hwon⟩
        · exact Or.inl ⟨_, hrun.trans (Fw.bind_of_error hlost _)⟩
        · refine Or.inr ⟨f, after, rfl, hready, ?_⟩
          rw [hrun, Fw.bind_apply, hwon]
      · refine Or.inr ⟨f, st, rfl, Ready.refl st, ?_⟩
        rw [process, Fw.gate_bind_ok hgates]
        simp only [hversion, ↓reduceIte]

theorem processAnchor_cases (raw : Bytes) :
    (∃ drop, processAnchor env fw raw src st = (.error drop, st)) ∨
      ∃ f before, env.decodeAnchor raw = some f ∧ Ready st before ∧
        processAnchor env fw raw src st = emitAnchor env fw raw src before := by
  cases hgates : anchorGates env raw with
  | error drop => exact Or.inl ⟨drop, by rw [processAnchor, Fw.gate_bind_error hgates]⟩
  | ok f =>
      have hrun : processAnchor env fw raw src st =
          (claimIngressIn fw.txDedup f.txID "brc134" >>= fun _ =>
            emitAnchor env fw raw src) st := by
        rw [processAnchor, Fw.gate_bind_ok hgates]
        rfl
      rcases claimIngressIn_ready fw.txDedup f.txID "brc134" (Ready.refl st) with
        hlost | ⟨after, hready, hwon⟩
      · exact Or.inl ⟨_, hrun.trans (Fw.bind_of_error hlost _)⟩
      · refine Or.inr ⟨f, after, anchorGates_ok hgates, hready, ?_⟩
        rw [hrun, Fw.bind_apply, hwon]

theorem setDeliverCount_topicID (bf : BEEFFrame) (raw : Bytes) (topics : Nat) :
    (setDeliverCount fw bf raw src topics).1.topicID = bf.topicID := by
  cases src <;> rfl

theorem beefGates_engine {raw : Bytes} {engine : PlaneEngine} {bf : BEEFFrame} {topics : Nat}
    (hgates : beefGates env fw raw src = .ok (engine, bf, topics)) :
    fw.beefEngine = some engine := by
  rw [beefGates] at hgates
  split at hgates
  · cases hgates
  · rename_i configured hengine
    repeat' split at hgates
    all_goals cases hgates
    exact hengine

/-- `checkBEEF` drops a frame, or passes it on to its topic's group with byte 7
set, and the state differs by claims and budgets only. -/
theorem checkBEEF_ready (raw : Bytes) (checkContentID : Bool) :
    (∃ drop before, Ready st before ∧
      checkBEEF env fw raw src now checkContentID st = (.error drop, before)) ∨
    ∃ engine bf topics before, fw.beefEngine = some engine ∧ env.decodeBEEF raw = some bf ∧
      Ready st before ∧
      checkBEEF env fw raw src now checkContentID st =
        (.ok ⟨(setDeliverCount fw bf raw src topics).1, engine.groupIndex bf.topicID,
          (setDeliverCount fw bf raw src topics).2⟩, before) := by
  cases hgates : beefGates env fw raw src with
  | error drop =>
      exact Or.inl ⟨drop, st, Ready.refl st, by rw [checkBEEF, Fw.gate_bind_error hgates]⟩
  | ok passed =>
      obtain ⟨engine, bf, topics⟩ := passed
      have htopic : (setDeliverCount fw bf raw src topics).1.topicID = bf.topicID :=
        setDeliverCount_topicID bf raw topics
      have hclaim : ∃ dedup, ∀ key, claimBEEFIngress fw key "brc148" =
          claimIngressIn dedup key "brc148" := by
        cases hbeef : fw.beefDedup with
        | none => exact ⟨fw.txDedup, fun key => by simp only [claimBEEFIngress, hbeef]⟩
        | some ref => exact ⟨some ref, fun key => by simp only [claimBEEFIngress, hbeef]⟩
      obtain ⟨dedup, hclaim⟩ := hclaim
      rw [checkBEEF, Fw.gate_bind_ok hgates]
      simp only [hclaim, htopic]
      generalize hmarked : setDeliverCount fw bf raw src topics = marked
      rw [Fw.bind_apply, chargeBudget_apply]
      have hcharged := (Ready.refl st).charged
        (st.beefLimit.allow env src marked.2.length now).2
      generalize ({ st with beefLimit := _ } : FwState) = before at hcharged ⊢
      cases (st.beefLimit.allow env src marked.2.length now).1 with
      | denySource => exact Or.inl ⟨_, before, hcharged, rfl⟩
      | denyPlane => exact Or.inl ⟨_, before, hcharged, rfl⟩
      | allow =>
          simp only [budgetVerdict]
          cases hcontent : contentGate env marked.1 src checkContentID with
          | error drop =>
              rw [Fw.gate_bind_error rfl]
              exact Or.inl ⟨drop, before, hcharged, rfl⟩
          | ok passed =>
              rw [Fw.gate_bind_ok rfl]
              rcases claimIngressIn_ready dedup
                  (beefClaimKey env marked.1.contentID bf.topicID) "brc148" hcharged with
                hlost | ⟨after, hready, hwon⟩
              · exact Or.inl ⟨_, before, hcharged, Fw.bind_of_error hlost _⟩
              · refine Or.inr ⟨engine, bf, topics, after, beefGates_engine hgates,
                  beefGates_ok hgates, hready, ?_⟩
                rw [Fw.bind_apply, hwon, hmarked]
                rfl

theorem checkBEEF_ok {raw : Bytes} {checkContentID : Bool} {checked : CheckedBEEF}
    {after : FwState} (hcheck : checkBEEF env fw raw src now checkContentID st =
      (.ok checked, after)) :
    ∃ engine bf topics, fw.beefEngine = some engine ∧ env.decodeBEEF raw = some bf ∧
      checked = ⟨(setDeliverCount fw bf raw src topics).1, engine.groupIndex bf.topicID,
        (setDeliverCount fw bf raw src topics).2⟩ := by
  rcases checkBEEF_ready raw checkContentID with
    ⟨drop, before, _, hdrop⟩ | ⟨engine, bf, topics, before, hengine, hdecode, _, hok⟩
  · cases hdrop.symm.trans hcheck
  · refine ⟨engine, bf, topics, hengine, hdecode, ?_⟩
    have hsame := congrArg Prod.fst (hcheck.symm.trans hok)
    exact Except.ok.inj hsame

end Cases

section Dispatched

variable (env : Env) (fw : Forwarder)

/-- The transaction frame of a datagram: the datagram itself, or the one built
around a bare transaction. -/
inductive TxFrame (raw : Bytes) : Bytes → Prop where
  | framed (hframed : framed raw) (hanchor : versionByte raw ≠ some frameVerV6) :
      TxFrame raw raw
  | bare {framing : Bytes} (hframed : ¬ framed raw)
      (hgates : bareTxGates env fw raw = .ok framing) : TxFrame raw framing

/-- The BEEF frame a datagram submits, and whether its ContentID is checked: the
frame built around a record, or a frame as it came. -/
inductive SubmitsBEEF (raw : Bytes) (src : Option NetAddr) : Bytes → Bool → Prop where
  | record {frame : Bytes} (hframed : ¬ framed raw)
      (hprepared : (prepareBEEF env fw raw src).frame = some frame) :
      SubmitsBEEF raw src frame false
  | framed (hframed : framed raw) (hversion : versionByte raw = some frameVerV9) :
      SubmitsBEEF raw src raw true

variable {env fw} in
/-- A record is framed by `BEEFMulticastRecord`. -/
theorem frame_of_prepared {raw frame : Bytes} {src : Option NetAddr}
    (hprepared : (prepareBEEF env fw raw src).frame = some frame) :
    ∃ deliver, env.beefMulticastRecord raw deliver = some frame := by
  simp only [prepareBEEF] at hprepared
  repeat' split at hprepared
  all_goals cases hprepared
  rename_i hframe
  exact ⟨_, hframe⟩

/-- The datagram is a BRC-134 anchor. -/
structure IsAnchor (raw : Bytes) : Prop where
  framed : framed raw
  version : versionByte raw = some frameVerV6
  decodes : ∃ f, env.decodeAnchor raw = some f

/-- The objects an open socket may send for a datagram. -/
inductive Object (raw : Bytes) (src : Option NetAddr) (now : Time) (st : FwState) :
    Outgoing fw → Prop where
  | tx {frame : Bytes} {f : Frame} (hframe : TxFrame env fw raw frame)
      (hdecode : env.decode frame = some f) (hversion : f.version = frameVerV2) :
      Object raw src now st (txOut fw st.bridging frame f src)
  | legacy {frame : Bytes} {f : Frame} (hframe : TxFrame env fw raw frame)
      (hdecode : env.decode frame = some f) (hversion : f.version = frameVerV1) :
      Object raw src now st (legacyOut fw st.bridging frame f)
  | anchor (hanchor : IsAnchor env raw) : Object raw src now st (anchorOut fw raw src)
  | beef {frame : Bytes} {checkContentID : Bool} {checked : CheckedBEEF} {after : FwState}
      (hsubmits : SubmitsBEEF env fw raw src frame checkContentID)
      (hcheck : checkBEEF env fw frame src now checkContentID st = (.ok checked, after)) :
      Object raw src now st (beefOut fw checked src)

/-- All that can come of a datagram on an open socket. -/
inductive Dispatched (raw : Bytes) (src : Option NetAddr) (now : Time) (cls : IngressClass)
    (st : FwState) : Except Drop Unit × FwState → Prop where
  | dropped {drop : Drop} {after : FwState} (hready : Ready st after) :
      Dispatched raw src now cls st (.error drop, after)
  | waiting {frame : Bytes} {f : Frame} {s : NetAddr} {before : FwState} (hsrc : src = some s)
      (hframe : TxFrame env fw raw frame) (hdecode : env.decode frame = some f)
      (hversion : f.version = frameVerV2) (hready : Ready st before) :
      Dispatched raw src now cls st (.ok (), { before with
        coal := before.coal.map fun coal => coal.add (txFlow fw f s) ⟨f.txID, f.payload⟩ })
  | sent {o : Outgoing fw} {before : FwState} (hobject : Object env fw raw src now st o)
      (hready : Ready st before) : Dispatched raw src now cls st (o.send env before)
  | relayed (hframed : framed raw) (hversion : versionByte raw = some frameVerV8)
      (hcls : cls ≠ .beef) (hgates : bundleGates raw = .ok ()) :
      Dispatched raw src now cls st (.ok (), { st with
        queue := st.queue ++ [enqueueData raw (fw.addrFor (bundleGroup raw)) (bundleGroup raw)] })

variable {env fw} {src : Option NetAddr} {now : Time} {cls : IngressClass} {st : FwState}

theorem Dispatched.of_process (hdec : DecodeLaws env) {raw frame : Bytes}
    (hframe : TxFrame env fw raw frame) (verify : Bool) :
    Dispatched env fw raw src now cls st (process env fw frame src verify st) := by
  rcases process_cases frame verify with ⟨drop, hdrop⟩ | ⟨f, before, hgates, hready, hrun⟩
  · rw [hdrop]
    exact .dropped (Ready.refl st)
  · rw [hrun]
    have hdecode := txGates_ok hgates
    rcases hdec.decode_version hdecode with hlegacy | hversion
    · rw [emitTx_of_legacy env fw (by rw [hlegacy]; decide), hready.bridging]
      exact .sent (.legacy hframe hdecode hlegacy) hready
    · by_cases hwaits : Waits env fw before f src
      · obtain ⟨s, rfl⟩ := Option.isSome_iff_exists.mp hwaits.1
        rw [emitTx_of_waits env fw frame hwaits]
        exact .waiting rfl hframe hdecode hversion hready
      · rw [emitTx_of_not_waits env fw hversion frame hwaits, hready.bridging]
        exact .sent (.tx hframe hdecode hversion) hready

theorem Dispatched.of_processBEEF {raw frame : Bytes} {checkContentID : Bool}
    (hsubmits : SubmitsBEEF env fw raw src frame checkContentID) :
    Dispatched env fw raw src now cls st
      (processBEEF env fw frame src now checkContentID st) := by
  rcases checkBEEF_ready frame checkContentID with
    ⟨drop, before, hready, hdrop⟩ | ⟨engine, bf, topics, before, _, _, hready, hcheck⟩
  · rw [processBEEF, Fw.bind_of_error hdrop]
    exact .dropped hready
  · rw [processBEEF, Fw.bind_apply, hcheck]
    simp only [emitBEEF_eq]
    exact .sent (.beef hsubmits hcheck) hready

theorem dispatchClass_cases (hdec : DecodeLaws env) (hcls : cls ≠ .privileged) (raw : Bytes) :
    Dispatched env fw raw src now cls st (dispatchClass env fw raw src now cls st) := by
  rw [dispatchClass_eq_route]
  have hopen := route_open env fw raw src hcls
  generalize route env fw raw src cls = taken at hopen
  cases hopen with
  | record hframed =>
      rw [Route.run, Entry.run, ShardProxy.dispatchBEEF]
      cases hprepared : (prepareBEEF env fw raw src).frame with
      | none => exact .dropped (Ready.refl st)
      | some frame => exact .of_processBEEF (.record hframed hprepared)
  | bare hframed _ =>
      rw [Route.run, Entry.run, dispatchBareTx]
      cases hgates : bareTxGates env fw raw with
      | error drop =>
          rw [Fw.gate_bind_error rfl]
          exact .dropped (Ready.refl st)
      | ok framing =>
          rw [Fw.gate_bind_ok rfl]
          exact .of_process hdec (.bare hframed hgates) false
  | anchor hframed hversion _ =>
      rw [Route.run, Entry.run]
      rcases processAnchor_cases raw with ⟨drop, hdrop⟩ | ⟨f, before, hdecode, hready, hrun⟩
      · rw [hdrop]
        exact .dropped (Ready.refl st)
      · rw [hrun, emitAnchor_eq]
        exact .sent (.anchor ⟨hframed, hversion, f, hdecode⟩) hready
  | beef hframed hversion => exact .of_processBEEF (.framed hframed hversion)
  | bundle hframed hversion hcls =>
      rw [Route.run, processBundle]
      cases hgates : bundleGates raw with
      | error drop =>
          rw [Fw.gate_bind_error rfl]
          exact .dropped (Ready.refl st)
      | ok passed =>
          rw [Fw.gate_bind_ok rfl, enqueue_apply]
          exact .relayed hframed hversion hcls hgates
  | frame hframed hanchor _ => exact .of_process hdec (.framed hframed hanchor) _
  | refuse drop _ => exact .dropped (Ready.refl st)

/-- A bundle that passes its checks is relayed as it came. -/
theorem dispatchClass_bundle {raw : Bytes} (hframed : framed raw)
    (hversion : versionByte raw = some frameVerV8) (hcls : cls ≠ .beef)
    (hgates : bundleGates raw = .ok ()) :
    dispatchClass env fw raw src now cls st = (.ok (), { st with
      queue := st.queue ++
        [enqueueData raw (fw.addrFor (bundleGroup raw)) (bundleGroup raw)] }) := by
  rw [dispatchClass, if_neg (not_not_intro hframed), hversion, if_neg (by decide),
    if_neg (by decide), if_neg (by decide), if_neg (by decide), if_pos rfl, if_neg hcls,
    processBundle, Fw.gate_bind_ok hgates, enqueue_apply]

/-- Where a queued datagram comes from: an object that was sent, or a bundle. -/
inductive Origin (env : Env) (fw : Forwarder) (raw : Bytes) (src : Option NetAddr) (now : Time)
    (cls : IngressClass) (st : FwState) : EnqueueReq → Prop where
  | object {o : Outgoing fw} {req : EnqueueReq} (hobject : Object env fw raw src now st o)
      (hreq : req ∈ o.requests env st.chains) : Origin env fw raw src now cls st req
  | bundle (hframed : framed raw) (hversion : versionByte raw = some frameVerV8)
      (hcls : cls ≠ .beef) (hgates : bundleGates raw = .ok ()) :
      Origin env fw raw src now cls st
        (enqueueData raw (fw.addrFor (bundleGroup raw)) (bundleGroup raw))

/-- Dispatching adds to the queue, and everything it adds has an origin. -/
theorem dispatchClass_queue (hdec : DecodeLaws env) (hfrag : FragmentLaws env)
    (hcls : cls ≠ .privileged) (raw : Bytes) :
    ∃ new, (dispatchClass env fw raw src now cls st).2.queue = st.queue ++ new ∧
      ∀ req ∈ new, Origin env fw raw src now cls st req := by
  have hcases : Dispatched env fw raw src now cls st _ := dispatchClass_cases hdec hcls raw
  have hnothing : ∀ after : FwState, Ready st after → ∃ new, after.queue = st.queue ++ new ∧
      ∀ req ∈ new, Origin env fw raw src now cls st req := by
    intro after hready
    exact ⟨[], by rw [hready.queue, List.append_nil], fun req hreq => by cases hreq⟩
  generalize dispatchClass env fw raw src now cls st = after at hcases
  cases hcases with
  | dropped hready => exact hnothing _ hready
  | @waiting _ _ _ before _ _ _ _ hready => exact hnothing before hready
  | @sent o before hobject hready =>
      by_cases hover : o.Overflows
      · rw [o.send_overflow hover]
        exact hnothing before hready
      · rw [o.send_apply hfrag before hover, hready.queue, hready.chains]
        exact ⟨_, rfl, fun req hreq => .object hobject hreq⟩
  | relayed hframed hversion hother hgates =>
      refine ⟨_, rfl, ?_⟩
      intro req hreq
      obtain rfl := List.mem_singleton.mp hreq
      exact .bundle hframed hversion hother hgates

/-- Dispatching lets at most one member wait, and under its transaction's flow. -/
theorem dispatchClass_coal (hdec : DecodeLaws env) (hfrag : FragmentLaws env)
    (hcls : cls ≠ .privileged) (raw : Bytes) :
    (dispatchClass env fw raw src now cls st).2.coal = st.coal ∨
      ∃ s frame f, src = some s ∧ TxFrame env fw raw frame ∧ env.decode frame = some f ∧
        f.version = frameVerV2 ∧ (dispatchClass env fw raw src now cls st).2.coal =
          st.coal.map fun coal => coal.add (txFlow fw f s) ⟨f.txID, f.payload⟩ := by
  have hcases : Dispatched env fw raw src now cls st _ := dispatchClass_cases hdec hcls raw
  generalize dispatchClass env fw raw src now cls st = after at hcases
  cases hcases with
  | dropped hready => exact Or.inl hready.coal
  | @waiting frame f s before hsrc hframe hdecode hversion hready =>
      exact Or.inr ⟨s, frame, f, hsrc, hframe, hdecode, hversion, by rw [hready.coal]⟩
  | @sent o before hobject hready =>
      by_cases hover : o.Overflows
      · rw [o.send_overflow hover]
        exact Or.inl hready.coal
      · rw [o.send_apply hfrag before hover]
        exact Or.inl hready.coal
  | relayed _ _ _ _ => exact Or.inl rfl

end Dispatched

end ShardProxy
