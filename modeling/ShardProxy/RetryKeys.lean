/-
The keys of the retry cache.  A cache answers a NACK by HashKey and SeqNum, so
no two different datagrams it may hold should carry the same pair.  The numbers
the proxy draws keep that for every mix of traffic; a number its sender wrote is
kept by the stamp, and the lane refuses such numbers on V2 frames only.
-/
import ShardProxy.Numbering

namespace ShardProxy

open ByteField Dispenser IssueLog

/-- The frame versions a retry cache holds. -/
def cachedVersions : List UInt8 :=
  [frameVerV2, frameVerV3, frameVerV4, frameVerV5, frameVerV6, frameVerV9]

def EnqueueReq.Cached (req : EnqueueReq) : Prop :=
  byteAt req.raw 6 ∈ cachedVersions

instance (req : EnqueueReq) : Decidable req.Cached :=
  inferInstanceAs (Decidable (_ ∈ _))

/-- What a cache files a datagram under. -/
def EnqueueReq.cacheKey (req : EnqueueReq) : UInt64 × UInt64 :=
  (uint64At req.raw 40, uint64At req.raw 48)

/-- A key of the cache names one datagram. -/
def UniqueKeys (queue : List EnqueueReq) : Prop :=
  ∀ left ∈ queue, ∀ right ∈ queue, left.Cached → right.Cached →
    left.cacheKey = right.cacheKey → left.raw = right.raw

instance (queue : List EnqueueReq) : Decidable (UniqueKeys queue) :=
  inferInstanceAs (Decidable (∀ left ∈ queue, _))

/-- The frames a sender may number and the lane does not look at. -/
def ungatedVersions : List UInt8 :=
  [frameVerV4, frameVerV5, frameVerV6, frameVerV9]

/-- A datagram from a source that leaves its control and object frames without a
SeqNum. -/
def LeavesNumbering : RunEvent → FwState → Prop
  | .datagram raw src _ _, _ => src.isSome ∧
      (framed raw → ∀ version ∈ ungatedVersions, versionByte raw = some version →
        uint64At raw 48 = 0)
  | _, _ => True

/-- An issue that files nothing under a foreign number, and one datagram under
its own. -/
def OneCached : Issue ChainKey EnqueueReq → Prop
  | .plain req => ¬ req.Cached
  | .numbered _ reqs => ∀ left ∈ reqs, ∀ right ∈ reqs, left.raw = right.raw

section Issues

variable {env : Env} {fw : Forwarder} {raw : Bytes} {src : Option NetAddr}

theorem txGates_unstamped (hlane : fw.allowStampedIngress = false) {frame : Bytes} {f : Frame}
    {verify : Bool} (hgates : txGates env fw frame verify = .ok f)
    (hversion : f.version = frameVerV2) : f.seqNum = 0 := by
  by_contra hstamped
  rw [txGates, txGates_ok hgates] at hgates
  simp only [hlane, hversion, hstamped, ne_eq, not_false_eq_true, and_self, ↓reduceIte] at hgates
  cases hgates

/-- What is sent under these conditions is out of the cache's classes, or is
numbered by the proxy. -/
theorem Admits.cached_or_unstamped (hlaws : RunLaws env) (hrecords : UnstampedRecords env)
    (hlane : fw.allowStampedIngress = false) {action : Action fw}
    (hadmits : Admits env fw raw src action) (hsrc : src.isSome)
    (hleaves : framed raw → ∀ version ∈ ungatedVersions, versionByte raw = some version →
      uint64At raw 48 = 0) (bridging : Option Engine) :
    byteAt (action.out bridging src).raw 6 ∉ cachedVersions ∧
        (action.out bridging src).flow = none ∧ (action.out bridging src).split = none ∨
      (action.out bridging src).flow.isSome ∧ uint64At (action.out bridging src).raw 48 = 0 := by
  obtain ⟨s, rfl⟩ := Option.isSome_iff_exists.mp hsrc
  cases hadmits with
  | @tx frame f verify hframe hgates =>
      have hdecode := txGates_ok hgates
      by_cases hversion : f.version = frameVerV2
      · simp only [Action.out, hversion, ↓reduceIte]
        refine Or.inr ⟨rfl, ?_⟩
        exact (hlaws.seq.decode_seqNum hdecode hversion).symm.trans
          (txGates_unstamped hlane hgates hversion)
      · simp only [Action.out, hversion, ↓reduceIte]
        have hlegacy : f.version = frameVerV1 :=
          (hlaws.dec.decode_version hdecode).resolve_right hversion
        refine Or.inl ⟨?_, rfl, rfl⟩
        rw [legacyOut, hlaws.keys.decode_byte6 hdecode, hlegacy]
        decide
  | block hframed hversion hgates =>
      exact Or.inr ⟨rfl, hleaves hframed _ (by decide) hversion⟩
  | subtreeData hframed hversion hgates =>
      exact Or.inr ⟨rfl, hleaves hframed _ (by decide) hversion⟩
  | anchor hanchor =>
      exact Or.inr ⟨rfl, hleaves hanchor.framed _ (by decide) hanchor.version⟩
  | @beef frame checkContentID plane bf topics hsubmits hgates =>
      have hframe : uint64At frame 48 = 0 := by
        cases hsubmits with
        | record hframed hprepared =>
            obtain ⟨deliver, hbuilt⟩ := frame_of_prepared hprepared
            exact hrecords.seqNum hbuilt
        | framed hframed hversion => exact hleaves hframed _ (by decide) hversion
      exact Or.inr ⟨rfl, (uint64At_withByte7 (some _) frame (by decide)).trans hframe⟩
  | relay hframed hversion hgates =>
      refine Or.inl ⟨?_, rfl, rfl⟩
      change byteAt raw 6 ∉ _
      rw [byteAt_of_versionByte hversion]
      decide

theorem Outgoing.oneCached_log {o : Outgoing fw} {chains : Chains}
    (hreqs : ∀ sent, ∀ req ∈ o.reqs sent, req.raw = sent)
    (hnumbers : byteAt o.raw 6 ∉ cachedVersions ∧ o.flow = none ∧ o.split = none ∨
      o.flow.isSome ∧ uint64At o.raw 48 = 0) :
    ∀ issue ∈ o.log env chains, OneCached issue := by
  intro issue hissue
  rw [Outgoing.log] at hissue
  cases hsplit : o.split with
  | some plan =>
      rw [hsplit] at hissue
      obtain ⟨req, _, rfl⟩ := List.mem_map.mp hissue
      intro left hleft right hright
      rw [List.mem_singleton.mp hleft, List.mem_singleton.mp hright]
  | none =>
      rw [hsplit] at hissue
      rcases hnumbers with ⟨hclass, hflow, _⟩ | ⟨hflow, hseq⟩
      · rw [hflow] at hissue
        obtain ⟨req, hreq, rfl⟩ := List.mem_map.mp hissue
        change ¬ byteAt req.raw 6 ∈ _
        rw [hreqs _ req hreq]
        exact hclass
      · obtain ⟨flow, hflow⟩ := Option.isSome_iff_exists.mp hflow
        simp only [hflow, hseq, ↓reduceIte, List.mem_singleton] at hissue
        subst hissue
        intro left hleft right hright
        rw [hreqs _ left hleft, hreqs _ right hright]

theorem EventIssue.oneCached (hlaws : RunLaws env) (hrecords : UnstampedRecords env)
    (hlane : fw.allowStampedIngress = false) {event : RunEvent} {st : FwState}
    {issue : Issue ChainKey EnqueueReq} (hissue : EventIssue env fw event st issue)
    (hleaves : LeavesNumbering event st) : OneCached issue := by
  cases hissue with
  | sent hadmits hwaits hissue =>
      exact Outgoing.oneCached_log (hadmits.reqs_raw st.bridging)
        (hadmits.cached_or_unstamped hlaws hrecords hlane hleaves.1 hleaves.2 _) _ hissue
  | bundle hcoal hbk hbundle =>
      obtain ⟨members, _, seqNum, rfl⟩ := hbundle
      intro left hleft right hright
      generalize env.encodeBundle _ = encoded at hleft hright
      cases encoded with
      | none => cases hleft
      | some datagram => rw [List.mem_singleton.mp hleft, List.mem_singleton.mp hright]

end Issues

section Keys

variable {env : Env}

/-- A log on counters that do not wrap files one datagram under a key. -/
theorem uniqueKeys_of_log {chains after : Chains} {log : Log}
    (hdraws : Draws ChainKey.stripe (Carries env) chains log after)
    (hcached : ∀ issue ∈ log, OneCached issue)
    (hroom : ∀ key, (lastSeq chains key).toNat + (issuesOn key log).length < 2 ^ 64)
    (hinj : Set.InjOn env.hashKey { key | 0 < (issuesOn key log).length }) :
    UniqueKeys (outputs log) := by
  -- each cached datagram has the issue of its flow that numbered it
  have hnumbered : ∀ req ∈ outputs log, req.Cached → ∃ key i list,
      (issuesOn key log)[i]? = some list ∧ req ∈ list ∧ .numbered key list ∈ log ∧
        req.cacheKey = (env.hashKey key, lastSeq chains key + UInt64.ofNat i + 1) := by
    intro req hreq hclass
    rcases mem_outputs hreq with hplain | ⟨key, list, hlist, hmem, hissue⟩
    · exact absurd hclass (hcached _ hplain)
    · obtain ⟨i, hi⟩ := List.mem_iff_getElem?.mp hlist
      obtain ⟨hkey, hseq⟩ := hdraws.carries_issue hi hmem
      exact ⟨key, i, list, hi, hmem, hissue, Prod.ext hkey hseq⟩
  intro left hleft right hright hleftClass hrightClass hsame
  obtain ⟨key, i, list, hi, hmem, hissue, hkey⟩ := hnumbered left hleft hleftClass
  obtain ⟨other, j, list', hj, hmem', _, hother⟩ := hnumbered right hright hrightClass
  have hibound := (List.getElem?_eq_some_iff.mp hi).1
  have hjbound := (List.getElem?_eq_some_iff.mp hj).1
  rw [hkey, hother, Prod.mk.injEq] at hsame
  obtain rfl : key = other := hinj (Nat.zero_lt_of_lt hibound) (Nat.zero_lt_of_lt hjbound) hsame.1
  have hnumber := congrArg UInt64.toNat hsame.2
  rw [toNat_number (hroom key) hibound, toNat_number (hroom key) hjbound] at hnumber
  obtain rfl : i = j := by omega
  obtain rfl : list = list' := Option.some.inj (hi.symm.trans hj)
  exact hcached _ hissue left hmem right hmem'

/-- On a lane that refuses stamped V2 frames, a run whose control and object
frames come without a SeqNum files one datagram under each key. -/
theorem retryKeys_unique (hlaws : RunLaws env) (hrecords : UnstampedRecords env)
    {fw : Forwarder} (hlane : fw.allowStampedIngress = false) {events : List RunEvent}
    {st : FwState} (hempty : st.queue = [])
    (hleaves : Along env fw LeavesNumbering events st)
    (hroom : ∀ key, (lastSeq st.chains key).toNat + drawn env fw key events st < 2 ^ 64)
    (hinj : Set.InjOn env.hashKey { key | 0 < drawn env fw key events st }) :
    UniqueKeys (runEvents env fw events st).queue := by
  obtain ⟨log, hqueues, hdrawn, hcached⟩ := run_log hlaws (fun _ => True) OneCached
    (fun _ _ _ _ => trivial)
    (fun _ _ _ _ hcond hissue => hissue.oneCached hlaws hrecords hlane hcond) trivial hleaves
  rw [hqueues.queue, hempty, List.nil_append]
  apply uniqueKeys_of_log hqueues.draws hcached
  · intro key
    rw [hdrawn key]
    exact hroom key
  · simp only [hdrawn]
    exact hinj

end Keys

section Sample

open Reference

/-- An anchor whose sender may have numbered it. -/
def numberedAnchor (seqNum : UInt64) (id : Hash32) (tx : Bytes) : Bytes :=
  encodeFields frameVerV6 ⟨0, id, 5, seqNum, zeroHash, tx⟩

/-- Two such anchors from one source. -/
def anchorEvents (seqNum : UInt64) : List RunEvent :=
  [1, 2].map fun byte => .datagram (numberedAnchor seqNum (sampleID byte) (sampleTx byte))
    (some (source 1)) 0 .transaction

def anchorFlow (src : NetAddr) : ChainKey :=
  ⟨addrToIPv6 src, groupAnchorFlow.toUInt32, zeroHash⟩

/-- An anchor moves the counter of its flow when it has no SeqNum. -/
theorem chains_anchorStep {fw : Forwarder} (hstore : fw.txDedup = none) (seqNum : UInt64)
    (id : Hash32) {tx : Bytes} (hlength : tx.length < 2 ^ 32) (src : NetAddr) (st : FwState) :
    (RunEvent.step Reference.env fw
        (.datagram (numberedAnchor seqNum id tx) (some src) 0 .transaction) st).chains =
      if seqNum = 0 then advance st.chains (anchorFlow src) 1 else st.chains := by
  have hframed : framed (numberedAnchor seqNum id tx) := framed_encodeFields _ _
  have hversion : versionByte (numberedAnchor seqNum id tx) = some frameVerV6 :=
    versionByte_encodeFields _ _
  have hdecode : Reference.env.decodeAnchor (numberedAnchor seqNum id tx) =
      some ⟨frameVerV6, id, seqNum, zeroHash, tx⟩ := decodeAnchor_encodeFields _ hlength
  have hgates : anchorGates Reference.env (numberedAnchor seqNum id tx) =
      .ok ⟨frameVerV6, id, seqNum, zeroHash, tx⟩ := by
    rw [anchorGates, hdecode]
  have hseq : uint64At (numberedAnchor seqNum id tx) 48 = seqNum := encodeFields_seqNum _ _
  have hfit : ¬ (anchorOut fw (numberedAnchor seqNum id tx) (some src)).Overflows := by
    rintro ⟨plan, hsplit, _⟩
    cases hsplit
  have hdispatch : dispatchClass Reference.env fw (numberedAnchor seqNum id tx) (some src) 0
      .transaction = processAnchor Reference.env fw (numberedAnchor seqNum id tx) (some src) := by
    rw [dispatchClass, if_neg (not_not_intro hframed), hversion]
    rfl
  have hclaim : ∀ id, claimIngress fw id "brc134" = pure () := by
    intro id
    rw [claimIngress, hstore]
    rfl
  rw [RunEvent.step, hdispatch, processAnchor, Fw.gate_bind_ok hgates, hclaim, Fw.pure_bind,
    emitAnchor_eq, Outgoing.send_apply _ fragmentLaws _ hfit]
  change (if uint64At (numberedAnchor seqNum id tx) 48 = 0 then _ else _) = _
  rw [hseq]
  rfl

theorem drawn_numberedAnchor {fw : Forwarder} (hstore : fw.txDedup = none) (seqNum : UInt64)
    (byte : UInt8) (key : ChainKey) (st : FwState) :
    RunEvent.drawn Reference.env fw key (.datagram
      (numberedAnchor seqNum (sampleID byte) (sampleTx byte)) (some (source 1)) 0 .transaction) st =
        if seqNum = 0 ∧ key = anchorFlow (source 1) then 1 else 0 := by
  have hlength : (sampleTx byte).length < 2 ^ 32 := by
    rw [length_sampleTx]
    decide
  have hchains := chains_anchorStep hstore seqNum (sampleID byte) hlength (source 1) st
  by_cases hseq : seqNum = 0
  · rw [if_pos hseq] at hchains
    rw [drawn_of_advance hchains]
    simp only [hseq, true_and]
  · rw [if_neg hseq] at hchains
    simp only [RunEvent.drawn, hchains, UInt64.sub_self, hseq, false_and, ↓reduceIte]
    rfl

theorem drawn_anchorEvents {fw : Forwarder} (hstore : fw.txDedup = none) (seqNum : UInt64)
    (key : ChainKey) (st : FwState) :
    drawn Reference.env fw key (anchorEvents seqNum) st =
      if seqNum = 0 ∧ key = anchorFlow (source 1) then 2 else 0 := by
  simp only [anchorEvents, List.map_cons, List.map_nil, drawn, drawn_numberedAnchor hstore]
  by_cases hboth : seqNum = 0 ∧ key = anchorFlow (source 1)
  · rw [if_pos hboth, if_pos hboth]
  · rw [if_neg hboth, if_neg hboth]

/-- Two anchors the proxy numbers itself are filed apart. -/
theorem retryKeys_unique_sample :
    UniqueKeys (runEvents Reference.env forwarder (anchorEvents 0) state).queue ∧
      (runEvents Reference.env forwarder (anchorEvents 0) state).queue.length = 2 := by
  have hzero : ∀ id tx, uint64At (numberedAnchor 0 id tx) 48 = 0 :=
    fun _ _ => encodeFields_seqNum _ _
  refine ⟨retryKeys_unique runLaws unstampedRecords rfl rfl ?_ ?_ ?_, by decide +kernel⟩
  · exact ⟨⟨rfl, fun _ _ _ _ => hzero _ _⟩, ⟨rfl, fun _ _ _ _ => hzero _ _⟩, trivial⟩
  · intro key
    have hfresh : lastSeq state.chains key = 0 := rfl
    rw [drawn_anchorEvents rfl, hfresh]
    split <;> decide
  · have hused : ∀ key, 0 < drawn Reference.env forwarder key (anchorEvents 0) state →
        key = anchorFlow (source 1) := by
      intro key hdrawn
      rw [drawn_anchorEvents rfl] at hdrawn
      by_contra hother
      simp [hother] at hdrawn
    intro left hleft right hright _
    rw [hused left hleft, hused right hright]

/-- Two different anchors with the SeqNum 7 their sender wrote are filed under one
key, whether the source is stamped or not, and no number was drawn for either. -/
theorem numberedAnchors_share_key :
    ¬ UniqueKeys (runEvents Reference.env forwarder (anchorEvents 7) state).queue ∧
      ¬ UniqueKeys (runEvents Reference.env { forwarder with stampSource := true }
        (anchorEvents 7) state).queue ∧
      ∀ stampSource key, drawn Reference.env { forwarder with stampSource := stampSource } key
        (anchorEvents 7) state = 0 := by
  refine ⟨by decide +kernel, by decide +kernel, ?_⟩
  intro stampSource key
  rw [drawn_anchorEvents rfl]
  rfl

end Sample

end ShardProxy
