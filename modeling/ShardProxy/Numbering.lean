/-
The runs of one worker with the numbers they draw written down.  A run is made
of datagrams on any socket, ends of batches, and successor layouts published
and cleared between them.  What each event adds to the queue is a log of issues
on the flow counters, and the log of a run is the logs of its events joined.
-/
import ShardProxy.CoalescedBatch
import ShardProxy.SeqIntegrity
import ShardProxy.Lib.IssueLog

namespace ShardProxy

open ByteField Chunks Dispenser IssueLog

/-- A log of what is queued on the flow counters. -/
abbrev Log := List (Issue ChainKey EnqueueReq)

/-- A log between two states: the counters move by it, and the queue grows by
what it hands out. -/
structure Queues (env : Env) (st after : FwState) (log : Log) : Prop where
  draws : Draws ChainKey.stripe (Carries env) st.chains log after.chains
  queue : after.queue = st.queue ++ outputs log

theorem Queues.of_eq {env : Env} {st after : FwState} (hchains : after.chains = st.chains)
    (hqueue : after.queue = st.queue) : Queues env st after [] := by
  refine ⟨?_, by rw [hqueue, outputs_nil, List.append_nil]⟩
  rw [hchains]
  exact .nil _

theorem Queues.trans {env : Env} {st middle after : FwState} {left right : Log}
    (hleft : Queues env st middle left) (hright : Queues env middle after right) :
    Queues env st after (left ++ right) := by
  refine ⟨hleft.draws.append hright.draws, ?_⟩
  rw [hright.queue, hleft.queue, outputs_append, List.append_assoc]

/-- Two logs, one after the other: the numbers add up and what both have in common
stays. -/
theorem Queues.join {env : Env} {st middle after : FwState} {first later : ChainKey → Nat}
    {good : Issue ChainKey EnqueueReq → Prop}
    (hfirst : ∃ log, Queues env st middle log ∧
      (∀ key, (issuesOn key log).length = first key) ∧ ∀ issue ∈ log, good issue)
    (hlater : ∃ log, Queues env middle after log ∧
      (∀ key, (issuesOn key log).length = later key) ∧ ∀ issue ∈ log, good issue) :
    ∃ log, Queues env st after log ∧
      (∀ key, (issuesOn key log).length = first key + later key) ∧
        ∀ issue ∈ log, good issue := by
  obtain ⟨left, hleft, hcount, hgood⟩ := hfirst
  obtain ⟨right, hright, hcount', hgood'⟩ := hlater
  refine ⟨left ++ right, hleft.trans hright, ?_, ?_⟩
  · intro key
    rw [issuesOn_append, List.length_append, hcount key, hcount' key]
  · intro issue hissue
    rcases List.mem_append.mp hissue with hhere | hthere
    · exact hgood issue hhere
    · exact hgood' issue hthere

section Sending

variable (env : Env) {fw : Forwarder} (o : Outgoing fw)

/-- The log of sending an object: a number for each fragment, one for a whole
frame without one and its copies, none for what leaves as it came. -/
def Outgoing.log (chains : Chains) : Log :=
  match o.split with
  | some plan => (planRequests env fw plan chains).map fun req => .numbered plan.flow [req]
  | none =>
      match o.flow with
      | none => (o.reqs o.raw).map .plain
      | some flow =>
          if uint64At o.raw 48 = 0 then [.numbered flow (o.reqs (o.frame env chains))]
          else (o.reqs (o.frame env chains)).map .plain

theorem outputs_numbered (flow : ChainKey) (reqs : List EnqueueReq) :
    outputs (reqs.map fun req => (.numbered flow [req] : Issue ChainKey EnqueueReq)) = reqs := by
  induction reqs with
  | nil => rfl
  | cons req rest ih =>
      rw [List.map_cons, outputs_cons, ih]
      rfl

theorem Outgoing.outputs_log (chains : Chains) :
    outputs (o.log env chains) = o.requests env chains := by
  rw [Outgoing.log, Outgoing.requests]
  cases o.split with
  | some plan => exact outputs_numbered plan.flow _
  | none =>
      cases hflow : o.flow with
      | none =>
          rw [Outgoing.frame, hflow]
          exact outputs_map_plain _
      | some flow =>
          by_cases hseq : uint64At o.raw 48 = 0
          · simp only [hseq, ↓reduceIte, outputs_cons, outputs_nil, List.append_nil]
            rfl
          · simp only [hseq, ↓reduceIte]
            exact outputs_map_plain _

variable {env}

/-- Consecutive numbers of one flow, a datagram each. -/
theorem draws_range {flow : ChainKey} {reqs : Nat → EnqueueReq} {n : Nat} {chains : Chains}
    (hcarries : ∀ i < n, Carries env flow (lastSeq chains flow + 1 + UInt64.ofNat i) (reqs i)) :
    Draws ChainKey.stripe (Carries env) chains
      ((List.range n).map fun i => .numbered flow [reqs i]) (advance chains flow n) := by
  induction n generalizing chains reqs with
  | zero => exact .nil _
  | succ n ih =>
      rw [List.range_succ_eq_map, List.map_cons, List.map_map]
      refine .numbered ?_ ?_
      · intro req hreq
        obtain rfl := List.mem_singleton.mp hreq
        have hfirst := hcarries 0 (Nat.succ_pos n)
        rwa [show lastSeq chains flow + 1 + UInt64.ofNat 0 = lastSeq chains flow + 1 from
          UInt64.add_zero _] at hfirst
      · change Draws _ _ (advance chains flow 1) _ (advance (advance chains flow 1) flow n)
        apply ih
        intro i hi
        have hnext := hcarries (i + 1) (Nat.succ_lt_succ hi)
        rw [UInt64.ofNat_add, UInt64.add_comm (UInt64.ofNat i), ← UInt64.add_assoc] at hnext
        rw [lastSeq_advance_one]
        exact hnext

theorem Outgoing.draws_log (hfrag : FragmentLaws env) (chains : Chains)
    (hsize : o.flow.isSome → headerSize ≤ o.raw.length)
    (hreqs : ∀ sent, ∀ req ∈ o.reqs sent, req.raw = sent) :
    Draws ChainKey.stripe (Carries env) chains (o.log env chains) (o.chainsAfter chains) := by
  rw [Outgoing.log, Outgoing.chainsAfter]
  cases hsplit : o.split with
  | some plan =>
      simp only [planRequests, List.map_map]
      apply draws_range
      intro i _
      exact carries_planDatagram hfrag plan _ i _
  | none =>
      cases hflow : o.flow with
      | none => exact Draws.of_plain _ _
      | some flow =>
          by_cases hseq : uint64At o.raw 48 = 0
          · simp only [hseq, ↓reduceIte]
            refine .numbered ?_ (.nil _)
            intro req hreq
            have hraw := hreqs _ req hreq
            simp only [Outgoing.frame, hflow, stamped, hseq, ↓reduceIte] at hraw
            exact carries_stamped ⟨hsize (by rw [hflow]; rfl), hseq⟩ flow _ hraw
          · simp only [hseq, ↓reduceIte]
            exact Draws.of_plain _ _

/-- A log of one object draws few numbers. -/
theorem Outgoing.length_issuesOn_log (hfit : ¬ o.Overflows) (key : ChainKey) (chains : Chains) :
    (issuesOn key (o.log env chains)).length ≤ 65535 := by
  rw [Outgoing.log]
  cases hsplit : o.split with
  | some plan =>
      have hcount : fw.fragTotal plan.payload ≤ 65535 :=
        Nat.le_of_not_lt fun hmany => hfit ⟨plan, hsplit, hmany⟩
      refine Nat.le_trans (List.length_filterMap_le _ _) ?_
      simpa [planRequests] using hcount
  | none =>
      cases o.flow with
      | none => simp [issuesOn_map_plain]
      | some flow =>
          by_cases hseq : uint64At o.raw 48 = 0
          · simp only [hseq, ↓reduceIte]
            exact Nat.le_trans (List.length_filterMap_le _ _) (by simp)
          · simp [hseq, issuesOn_map_plain]

theorem Admits.reqs_raw {raw : Bytes} {src : Option NetAddr} {action : Action fw}
    (hadmits : Admits env fw raw src action) (bridging : Option Engine) (sent : Bytes) :
    ∀ req ∈ (action.out bridging src).reqs sent, req.raw = sent := by
  have hone : ∀ own : EnqueueReq, own.raw = sent → ∀ req ∈ [own], req.raw = sent := by
    intro own hown req hreq
    rw [List.mem_singleton.mp hreq]
    exact hown
  cases hadmits with
  | @tx frame f verify hframe hgates =>
      have hboth : ∀ own copies, own.raw = sent → (∀ req ∈ copies, req.raw = sent) →
          ∀ req ∈ (own :: copies : List EnqueueReq), req.raw = sent := by
        intro own copies hown hcopies req hreq
        rcases List.mem_cons.mp hreq with rfl | hcopy
        · exact hown
        · exact hcopies req hcopy
      by_cases hversion : f.version = frameVerV2
      · simp only [Action.out, hversion, ↓reduceIte]
        exact hboth _ _ rfl fun req hcopy => raw_of_mem_bridgeCopy hcopy
      · simp only [Action.out, hversion, ↓reduceIte]
        exact hboth _ _ rfl fun req hcopy => raw_of_mem_bridgeCopy hcopy
  | block hframed hversion hgates => exact hone _ rfl
  | subtreeData hframed hversion hgates => exact hone _ rfl
  | anchor hanchor => exact hone _ rfl
  | beef hsubmits hgates => exact hone _ rfl
  | relay hframed hversion hgates => exact hone _ rfl

end Sending

section Flushing

variable {env : Env} {fw : Forwarder}

/-- An issue of a flushed bucket: a bundle of its flow, or a number spent on one
that could not be written. -/
def BundleIssue (env : Env) (fw : Forwarder) (bk : CoalBucket) (bundles : List (List Member))
    (issue : Issue ChainKey EnqueueReq) : Prop :=
  ∃ members ∈ bundles, ∃ seqNum,
    issue = .numbered bk.flow
      ((env.encodeBundle (bundleOf fw bk members (env.hashKey bk.flow) seqNum)).toList.map
        fun raw => enqueueData raw (fw.addrFor bk.group) bk.group)

variable (fw) in
theorem flushBundles_log (hlaws : BundleLaws env) (bk : CoalBucket)
    (bundles : List (List Member)) (chains : Chains) :
    ∃ log : Log,
      Draws ChainKey.stripe (Carries env) chains log
          (run (flushBundles env fw bk bundles) chains).registry ∧
        (run (flushBundles env fw bk bundles) chains).outputs = outputs log ∧
        log.length = bundles.length ∧ ∀ issue ∈ log, BundleIssue env fw bk bundles issue := by
  induction bundles generalizing chains with
  | nil => exact ⟨[], .nil _, rfl, rfl, by simp⟩
  | cons members rest ih =>
      obtain ⟨log, hdraws, houtputs, hlength, hissues⟩ := ih (advance chains bk.flow 1)
      generalize hencoded : env.encodeBundle (bundleOf fw bk members (env.hashKey bk.flow)
        (lastSeq chains bk.flow + 1)) = encoded
      have hsend : ∀ chains : Chains, run (sendEncoded (fun raw => enqueueData raw
          (fw.addrFor bk.group) bk.group) encoded) chains = ⟨⟨⟩, chains,
            encoded.toList.map fun raw => enqueueData raw (fw.addrFor bk.group) bk.group⟩ := by
        intro chains
        cases encoded <;> rfl
      refine ⟨.numbered bk.flow (encoded.toList.map fun raw =>
        enqueueData raw (fw.addrFor bk.group) bk.group) :: log, ?_, ?_, ?_, ?_⟩
      · simp only [flushBundles, run_bind, run_nextSeq, hencoded, hsend]
        refine .numbered ?_ hdraws
        intro req hreq
        obtain ⟨raw, hraw, rfl⟩ := List.mem_map.mp hreq
        exact hlaws.stamped (hencoded.trans (Option.mem_toList.mp hraw))
      · simp only [flushBundles, run_bind, run_nextSeq, hencoded, hsend, houtputs,
          List.nil_append, outputs_cons]
        rfl
      · rw [List.length_cons, List.length_cons, hlength]
      · intro issue hissue
        rcases List.mem_cons.mp hissue with rfl | hlater
        · exact ⟨members, List.mem_cons_self, _, by rw [hencoded]⟩
        · obtain ⟨found, hfound, hshape⟩ := hissues issue hlater
          exact ⟨found, List.mem_cons_of_mem members hfound, hshape⟩

/-- The bundles a bucket's members are packed into. -/
def bucketBundles (env : Env) (fw : Forwarder) (maxMembers : Nat) (bk : CoalBucket) :
    List (List Member) :=
  packBundles (env.memberOverhead fw.coalesceCarryTxid) fw.bundleBudget maxMembers
    bk.members.length bk.members

/-- How many bundles of a flow a flush packs. -/
def bundlesOn (env : Env) (fw : Forwarder) (maxMembers : Nat) (buckets : List CoalBucket)
    (key : ChainKey) : Nat :=
  ((buckets.filter (·.flow = key)).map fun bk => (bucketBundles env fw maxMembers bk).length).sum

theorem length_issuesOn_bucket {bk : CoalBucket} {bundles : List (List Member)} {log : Log}
    (hissues : ∀ issue ∈ log, BundleIssue env fw bk bundles issue) (key : ChainKey) :
    (issuesOn key log).length = if bk.flow = key then log.length else 0 := by
  induction log with
  | nil => simp [issuesOn]
  | cons issue rest ih =>
      obtain ⟨_, _, _, rfl⟩ := hissues issue List.mem_cons_self
      have htail := ih fun later hlater => hissues later (List.mem_cons_of_mem _ hlater)
      rw [issuesOn_numbered, List.length_append, htail, List.length_cons]
      split
      · rw [List.length_singleton, Nat.add_comm]
      · rfl

variable (fw) in
theorem flushBuckets_log (hlaws : BundleLaws env) (maxMembers : Nat)
    (buckets : List CoalBucket) (chains : Chains) :
    ∃ log : Log,
      Draws ChainKey.stripe (Carries env) chains log
          (run (flushBuckets env fw maxMembers buckets) chains).registry ∧
        (run (flushBuckets env fw maxMembers buckets) chains).outputs = outputs log ∧
        (∀ key, (issuesOn key log).length = bundlesOn env fw maxMembers buckets key) ∧
        ∀ issue ∈ log, ∃ bk ∈ buckets,
          BundleIssue env fw bk (bucketBundles env fw maxMembers bk) issue := by
  induction buckets generalizing chains with
  | nil => exact ⟨[], .nil _, rfl, fun _ => rfl, by simp⟩
  | cons bk rest ih =>
      obtain ⟨first, hdraws, houtputs, hlength, hissues⟩ :=
        flushBundles_log fw hlaws bk (bucketBundles env fw maxMembers bk) chains
      obtain ⟨later, hdraws', houtputs', hlength', hissues'⟩ :=
        ih (run (flushBundles env fw bk (bucketBundles env fw maxMembers bk)) chains).registry
      refine ⟨first ++ later, ?_, ?_, ?_, ?_⟩
      · simp only [flushBuckets, run_bind]
        exact hdraws.append hdraws'
      · simp only [flushBuckets, run_bind, outputs_append, ← houtputs, ← houtputs']
        rfl
      · intro key
        rw [issuesOn_append, List.length_append, hlength' key,
          length_issuesOn_bucket hissues key, hlength]
        by_cases hkey : bk.flow = key <;> simp [bundlesOn, hkey]
      · intro issue hissue
        rcases List.mem_append.mp hissue with hhere | hthere
        · exact ⟨bk, List.mem_cons_self, hissues issue hhere⟩
        · obtain ⟨found, hfound, hshape⟩ := hissues' issue hthere
          exact ⟨found, List.mem_cons_of_mem bk hfound, hshape⟩

end Flushing

section Runs

variable (env : Env) (fw : Forwarder)

/-- What happens to a worker: a datagram arrives, a batch ends, or a successor
layout is published or cleared. -/
inductive RunEvent where
  | datagram (raw : Bytes) (src : Option NetAddr) (now : Time) (cls : IngressClass)
  | flush
  | bridge (engine : Option Engine)

def RunEvent.step : RunEvent → FwState → FwState
  | .datagram raw src now cls, st => (dispatchClass env fw raw src now cls st).2
  | .flush, st => (flushCoalescedFw env fw st).2
  | .bridge engine, st => { st with bridging := engine }

theorem RunEvent.step_flush_none {st : FwState} (hcoal : st.coal = none) :
    RunEvent.step env fw .flush st = st := by
  simp only [RunEvent.step, flushCoalescedFw, hcoal]

theorem RunEvent.step_flush_some {st : FwState} {coal : CoalBuffer}
    (hcoal : st.coal = some coal) :
    RunEvent.step env fw .flush st = { st with
      chains := (run (flushCoalesced env fw coal) st.chains).registry
      queue := st.queue ++ (run (flushCoalesced env fw coal) st.chains).outputs
      coal := some coal.reset } := by
  simp only [RunEvent.step, flushCoalescedFw, hcoal]

def runEvents : List RunEvent → FwState → FwState
  | [], st => st
  | event :: rest, st => runEvents rest (event.step env fw st)

/-- A condition on each event of a run and the state it meets. -/
def Along (cond : RunEvent → FwState → Prop) : List RunEvent → FwState → Prop
  | [], _ => True
  | event :: rest, st => cond event st ∧ Along cond rest (event.step env fw st)

/-- The numbers an event draws on a flow: the bundles a flush packs for it, and
how far its counter moves otherwise. -/
def RunEvent.drawn (key : ChainKey) : RunEvent → FwState → Nat
  | .flush, st => st.coal.elim 0 fun coal => bundlesOn env fw coal.maxMembers coal.buckets key
  | event, st => (lastSeq (event.step env fw st).chains key - lastSeq st.chains key).toNat

/-- The numbers a run draws on a flow. -/
def drawn (key : ChainKey) : List RunEvent → FwState → Nat
  | [], _ => 0
  | event :: rest, st => event.drawn env fw key st + drawn key rest (event.step env fw st)

variable {env fw}

theorem drawn_eq_of_log {key : ChainKey} {st after : FwState} {log : Log}
    (hqueues : Queues env st after log) (hfew : (issuesOn key log).length < 2 ^ 64) :
    (lastSeq after.chains key - lastSeq st.chains key).toNat = (issuesOn key log).length := by
  have hvalue : lastSeq after.chains key =
      lastSeq st.chains key + UInt64.ofNat (issuesOn key log).length := hqueues.draws.value key
  rw [hvalue, UInt64.add_comm, UInt64.add_sub_cancel]
  exact UInt64.toNat_ofNat_of_lt' hfew

/-- What a datagram draws that takes one number of a flow. -/
theorem drawn_of_advance {raw : Bytes} {src : Option NetAddr} {now : Time} {cls : IngressClass}
    {st : FwState} {flow : ChainKey}
    (hchains : (RunEvent.step env fw (.datagram raw src now cls) st).chains =
      advance st.chains flow 1) (key : ChainKey) :
    RunEvent.drawn env fw key (.datagram raw src now cls) st = if key = flow then 1 else 0 := by
  simp only [RunEvent.drawn, hchains, lastSeq_advance]
  split
  · rw [UInt64.add_comm, UInt64.add_sub_cancel]
    rfl
  · rw [UInt64.add_zero, UInt64.sub_self]
    rfl

variable (env fw) in
/-- Where an issue of an event comes from: the object sent for a datagram, or a
bundle of a flush. -/
inductive EventIssue : RunEvent → FwState → Issue ChainKey EnqueueReq → Prop where
  | sent {raw : Bytes} {src : Option NetAddr} {now : Time} {cls : IngressClass} {st : FwState}
      {action : Action fw} {issue : Issue ChainKey EnqueueReq}
      (hadmits : Admits env fw raw src action) (hwaits : ¬ action.Waits env src st)
      (hissue : issue ∈ (action.out st.bridging src).log env st.chains) :
      EventIssue (.datagram raw src now cls) st issue
  | bundle {st : FwState} {coal : CoalBuffer} {bk : CoalBucket}
      {issue : Issue ChainKey EnqueueReq} (hcoal : st.coal = some coal)
      (hbk : bk ∈ coal.buckets)
      (hissue : BundleIssue env fw bk (bucketBundles env fw coal.maxMembers bk) issue) :
      EventIssue .flush st issue

/-- What the results on runs assume of the codecs. -/
structure RunLaws (env : Env) : Prop where
  dec : DecodeLaws env
  keys : HashKeyLaws env
  seq : SeqNumLaws env
  frag : FragmentLaws env
  bundles : BundleLaws env

theorem Reference.runLaws : RunLaws Reference.env :=
  ⟨decodeLaws, hashKeyLaws, seqNumLaws, fragmentLaws, bundleLaws⟩

theorem datagram_log (hlaws : RunLaws env) (raw : Bytes) (src : Option NetAddr) (now : Time)
    (cls : IngressClass) (st : FwState) :
    ∃ log, Queues env st (RunEvent.step env fw (.datagram raw src now cls) st) log ∧
      (∀ key, (issuesOn key log).length < 2 ^ 64) ∧
      ∀ issue ∈ log, EventIssue env fw (.datagram raw src now cls) st issue := by
  have hstep : DispatchStep env fw raw src st
      (RunEvent.step env fw (.datagram raw src now cls) st) :=
    dispatchClass_step hlaws.frag raw src now cls st
  generalize RunEvent.step env fw (.datagram raw src now cls) st = after at hstep
  cases hstep with
  | dropped hready =>
      exact ⟨[], .of_eq hready.chains hready.queue, fun _ => by simp [issuesOn], by simp⟩
  | waiting hsrc hadmits hwaits hready =>
      exact ⟨[], .of_eq hready.chains hready.queue, fun _ => by simp [issuesOn], by simp⟩
  | @sent action before hadmits hwaits hfit hready =>
      refine ⟨_, ⟨?_, ?_⟩, ?_, fun issue hissue => .sent hadmits hwaits hissue⟩
      · apply Outgoing.draws_log _ hlaws.frag
        · intro hflow
          obtain ⟨flow, hflow⟩ := Option.isSome_iff_exists.mp hflow
          exact (hadmits.stampable hlaws.dec hlaws.keys hlaws.seq hflow).1
        · exact fun sent => hadmits.reqs_raw st.bridging sent
      · rw [Outgoing.outputs_log]
      · intro key
        exact Nat.lt_of_le_of_lt (Outgoing.length_issuesOn_log _ hfit key _) (by decide)

/-- Every event has a log, which draws what the event draws. -/
theorem event_log (hlaws : RunLaws env) (event : RunEvent) (st : FwState) :
    ∃ log, Queues env st (event.step env fw st) log ∧
      (∀ key, (issuesOn key log).length = event.drawn env fw key st) ∧
      ∀ issue ∈ log, EventIssue env fw event st issue := by
  cases event with
  | datagram raw src now cls =>
      obtain ⟨log, hqueues, hfew, hissues⟩ := datagram_log hlaws raw src now cls st
      exact ⟨log, hqueues, fun key => (drawn_eq_of_log hqueues (hfew key)).symm, hissues⟩
  | flush =>
      cases hcoal : st.coal with
      | none =>
          rw [RunEvent.step_flush_none env fw hcoal]
          refine ⟨[], .of_eq rfl rfl, fun key => ?_, by simp⟩
          simp only [RunEvent.drawn, hcoal, Option.elim_none]
          rfl
      | some coal =>
          obtain ⟨log, hdraws, houtputs, hcount, hissues⟩ :=
            flushBuckets_log fw hlaws.bundles coal.maxMembers coal.buckets st.chains
          rw [RunEvent.step_flush_some env fw hcoal]
          refine ⟨log, ⟨hdraws, by rw [← houtputs]; rfl⟩, fun key => ?_, ?_⟩
          · simp only [RunEvent.drawn, hcoal, Option.elim_some]
            exact hcount key
          · intro issue hissue
            obtain ⟨bk, hbk, hbundle⟩ := hissues issue hissue
            exact .bundle hcoal hbk hbundle
  | bridge engine =>
      refine ⟨[], .of_eq rfl rfl, fun key => ?_, by simp⟩
      simp only [RunEvent.drawn, RunEvent.step, UInt64.sub_self]
      rfl

/-- The rule for runs: with an invariant of the events that meet a condition, what
their issues have in common is true of a log of the whole run. -/
theorem run_log (hlaws : RunLaws env) (inv : FwState → Prop) {cond : RunEvent → FwState → Prop}
    (good : Issue ChainKey EnqueueReq → Prop)
    (hstep : ∀ event st, inv st → cond event st → inv (event.step env fw st))
    (hgood : ∀ event st issue, inv st → cond event st → EventIssue env fw event st issue →
      good issue)
    {events : List RunEvent} {st : FwState} (hinv : inv st) (halong : Along env fw cond events st) :
    ∃ log, Queues env st (runEvents env fw events st) log ∧
      (∀ key, (issuesOn key log).length = drawn env fw key events st) ∧
      ∀ issue ∈ log, good issue := by
  induction events generalizing st with
  | nil => exact ⟨[], .of_eq rfl rfl, fun _ => rfl, by simp⟩
  | cons event rest ih =>
      obtain ⟨log, hqueues, hdrawn, hissues⟩ := event_log hlaws event st
      have hfirst : ∀ issue ∈ log, good issue := fun issue hissue =>
        hgood event st issue hinv halong.1 (hissues issue hissue)
      exact Queues.join ⟨log, hqueues, hdrawn, hfirst⟩
        (ih (hstep event st hinv halong.1) halong.2)

end Runs

end ShardProxy
