/-
The limiter under load.  Every lane charges its objects to one limiter.  A charge is not
one step: the source table is under one lock and every bucket under its own, so the charges
of other lanes fall in between, a lane may still hold the buckets of a source that was
evicted meanwhile, and a lane that was held up comes with an old reading of the clock.
The plane's budgets bound what the door admits all the same.
-/
import ShardProxy.Lib.AssocList
import ShardProxy.Lib.AtomicOps
import ShardProxy.PlaneBudget

namespace ShardProxy

open ByteField TokenBucket AtomicOps

/-- A bucket of the limiter: one of the plane's, or of a source's record.  Records are
numbered as they are made. -/
inductive BucketRef where
  | planeObj
  | planeByt
  | srcObj (record : Nat)
  | srcByt (record : Nat)
deriving DecidableEq

/-- The limiter as the lanes share it.  The table keeps for a source which record it has
and when that was last charged; records that left the table are still there for the lanes
that hold them. -/
structure LimiterHeap where
  bucket : BucketRef → Bucket
  srcs : List (String × Nat × Time)
  made : Nat

/-- What the mutexes make atomic: to look a source up, or make it a record, and to charge
one bucket. -/
inductive LimiterOp where
  | track (key : String) (now : Time)
  | allowN (ref : BucketRef) (now : Time) (n : Nat)

def LimiterOp.Answer : LimiterOp → Type
  | .track _ _ => Nat
  | .allowN _ _ _ => Bool

/-- The reading of the clock an operation comes with. -/
def LimiterOp.now : LimiterOp → Time
  | .track _ now => now
  | .allowN _ now _ => now

abbrev LimiterProg (A : Type) : Type := Script LimiterOp LimiterOp.Answer A

section Heap

variable (env : Env) (cfg : BEEFRateConfig)

def LimiterHeap.start : LimiterHeap where
  bucket
    | .planeObj => newBucket cfg.planeObjectsPerSec cfg.planeObjectsPerSec
    | .planeByt => newBucket cfg.planeBytesPerSec cfg.planeBytesPerSec
    | _ => ⟨0, 0, 0, 0⟩
  srcs := []
  made := 0

/-- A record of a source, with its buckets. -/
def LimiterHeap.source (h : LimiterHeap) (entry : String × Nat × Time) : String × SrcBuckets :=
  (entry.1, ⟨h.bucket (.srcObj entry.2.1), h.bucket (.srcByt entry.2.1), entry.2.2⟩)

/-- The limiter as one lane finds it. -/
def LimiterHeap.shows (h : LimiterHeap) : BEEFLimiter :=
  ⟨cfg, h.bucket .planeObj, h.bucket .planeByt, h.srcs.map h.source⟩

def LimiterHeap.evictOldest (h : LimiterHeap) : LimiterHeap :=
  let (oldestKey, _) := oldestSource (h.srcs.map h.source) (env.mapOrder (h.srcs.map Prod.fst))
  if oldestKey ≠ "" then { h with srcs := h.srcs.filter fun entry => entry.1 ≠ oldestKey }
  else h

def LimiterHeap.makeRoom (h : LimiterHeap) : LimiterHeap :=
  if cfg.maxTrackedSources ≤ (h.srcs.length : Int) then h.evictOldest env else h

def LimiterHeap.enter (key : String) (now : Time) (h : LimiterHeap) : LimiterHeap :=
  let bucket := Function.update h.bucket (.srcObj h.made)
    (newBucket cfg.sourceObjectsPerSec cfg.sourceObjectsPerSec)
  { bucket := Function.update bucket (.srcByt h.made)
      (newBucket cfg.sourceBytesPerSec cfg.sourceBytesPerSec)
    srcs := h.srcs ++ [(key, h.made, now)]
    made := h.made + 1 }

/-- A source's record is marked as charged now. -/
def LimiterHeap.touch (key : String) (now : Time) (h : LimiterHeap) : LimiterHeap :=
  { h with
    srcs := h.srcs.map fun entry => if entry.1 = key then (key, entry.2.1, now) else entry }

/-- The section of `allowSource` under the limiter's lock. -/
def LimiterHeap.track (key : String) (now : Time) (h : LimiterHeap) : Nat × LimiterHeap :=
  match h.srcs.lookup key with
  | some (record, _) => (record, h.touch key now)
  | none => ((h.makeRoom env cfg).made, (h.makeRoom env cfg).enter cfg key now)

/-- `allowN` on a bucket, under the bucket's lock. -/
def LimiterHeap.charge (ref : BucketRef) (now : Time) (n : Nat) (h : LimiterHeap) :
    Bool × LimiterHeap :=
  let (ok, b) := (h.bucket ref).allowN now n
  (ok, { h with bucket := Function.update h.bucket ref b })

def limiterStep : (op : LimiterOp) → LimiterHeap → op.Answer × LimiterHeap
  | .track key now, h => h.track env cfg key now
  | .allowN ref now n, h => h.charge ref now n

def LimiterProg.track (key : String) (now : Time) : LimiterProg Nat :=
  .ask (.track key now) .done

def LimiterProg.allowN (ref : BucketRef) (now : Time) (n : Nat) : LimiterProg Bool :=
  .ask (.allowN ref now n) .done

/-- The last line of `allowSource`, with no lock but the buckets' own. -/
def LimiterProg.chargeSource (n : Nat) (now : Time) (record : Nat) : LimiterProg Bool :=
  (LimiterProg.allowN (.srcObj record) now 1).bind fun objOK =>
    if objOK then LimiterProg.allowN (.srcByt record) now n else .done false

def LimiterProg.allowSource (src : NetAddr) (n : Nat) (now : Time) : LimiterProg Bool :=
  if cfg.sourceObjectsPerSec ≤ 0 ∧ cfg.sourceBytesPerSec ≤ 0 then .done true
  else
    (LimiterProg.track (sourceKey env src cfg.sourcePrefixBits) now).bind
      (LimiterProg.chargeSource n now)

def LimiterProg.allowPlane (n : Nat) (now : Time) : LimiterProg RateDecision :=
  (LimiterProg.allowN .planeObj now 1).bind fun objOK =>
    if objOK then
      (LimiterProg.allowN .planeByt now n).bind fun bytOK =>
        .done (if bytOK then .allow else .denyPlane)
    else .done .denyPlane

/-- Some budget is set. -/
def BEEFRateConfig.enabled : Bool :=
  0 < cfg.sourceObjectsPerSec || 0 < cfg.sourceBytesPerSec ||
    0 < cfg.planeObjectsPerSec || 0 < cfg.planeBytesPerSec

/-- `allow` for an object with a source; relay traffic has none and touches nothing. -/
def LimiterProg.allow (src : NetAddr) (n : Nat) (now : Time) : LimiterProg RateDecision :=
  if cfg.enabled then
    (LimiterProg.allowSource env cfg src n now).bind fun sourceOK =>
      if sourceOK then LimiterProg.allowPlane n now else .done .denySource
  else .done .allow

end Heap

/-- The table has a source once, and every source a record of its own. -/
structure LimiterHeap.WellFormed (h : LimiterHeap) : Prop where
  keys : (h.srcs.map Prod.fst).Nodup
  records : (h.srcs.map fun entry => entry.2.1).Nodup
  made : ∀ entry ∈ h.srcs, entry.2.1 < h.made

section Alone

variable {env : Env} {cfg : BEEFRateConfig} {h : LimiterHeap} {key : String} {now : Time}

theorem LimiterHeap.lookup_source (h : LimiterHeap) (key : String) :
    (h.srcs.map h.source).lookup key = (h.srcs.lookup key).map fun found =>
      ⟨h.bucket (.srcObj found.1), h.bucket (.srcByt found.1), found.2⟩ := by
  induction h.srcs with
  | nil => rfl
  | cons entry rest ih =>
      obtain ⟨other, found⟩ := entry
      rw [List.map_cons, LimiterHeap.source]
      by_cases hkey : key = other
      · subst hkey
        rw [AssocList.lookup_self, AssocList.lookup_self]
        rfl
      · rw [AssocList.lookup_of_ne hkey, AssocList.lookup_of_ne hkey, ih]

theorem LimiterHeap.keys_source (h : LimiterHeap) :
    (h.srcs.map h.source).map Prod.fst = h.srcs.map Prod.fst := by
  rw [List.map_map]
  rfl

theorem LimiterHeap.shows_evictOldest (h : LimiterHeap) :
    (h.evictOldest env).shows cfg = (h.shows cfg).evictOldest env := by
  simp only [LimiterHeap.evictOldest, BEEFLimiter.evictOldest, LimiterHeap.shows,
    LimiterHeap.keys_source]
  split
  · rw [List.filter_map]
    rfl
  · rfl

theorem LimiterHeap.makeRoom_sublist (env : Env) (cfg : BEEFRateConfig) (h : LimiterHeap) :
    (h.makeRoom env cfg).srcs.Sublist h.srcs ∧ (h.makeRoom env cfg).made = h.made := by
  simp only [LimiterHeap.makeRoom, LimiterHeap.evictOldest]
  split_ifs
  · exact ⟨List.filter_sublist, rfl⟩
  · exact ⟨List.Sublist.refl _, rfl⟩
  · exact ⟨List.Sublist.refl _, rfl⟩

theorem LimiterHeap.makeRoom_absent (env : Env) (cfg : BEEFRateConfig) (h : LimiterHeap)
    (hlookup : h.srcs.lookup key = none) : key ∉ (h.makeRoom env cfg).srcs.map Prod.fst := by
  intro hmem
  have hthere := ((h.makeRoom_sublist env cfg).1.map Prod.fst).subset hmem
  rw [← AssocList.isSome_lookup_iff, hlookup] at hthere
  cases hthere

theorem LimiterHeap.track_shows (h : LimiterHeap) (hlookup : h.srcs.lookup key = none) :
    (h.shows cfg).track env key =
      (⟨newBucket cfg.sourceObjectsPerSec cfg.sourceObjectsPerSec,
        newBucket cfg.sourceBytesPerSec cfg.sourceBytesPerSec, 0⟩,
        (h.makeRoom env cfg).shows cfg) := by
  have hfound : (h.shows cfg).srcs.lookup key = none := by
    rw [show (h.shows cfg).srcs = h.srcs.map h.source from rfl, h.lookup_source, hlookup]
    rfl
  have hlength : (h.shows cfg).srcs.length = h.srcs.length := List.length_map _
  have hcfg : ((h.shows cfg).evictOldest env).cfg = cfg := by
    rw [← h.shows_evictOldest]
    rfl
  simp only [BEEFLimiter.track, hfound, hlength, LimiterHeap.makeRoom,
    show (h.shows cfg).cfg = cfg from rfl]
  split_ifs
  · rw [hcfg, h.shows_evictOldest]
  · rfl

theorem LimiterHeap.WellFormed.sublist {h' : LimiterHeap} (hwf : h.WellFormed)
    (hsrcs : h'.srcs.Sublist h.srcs) (hmade : h'.made = h.made) : h'.WellFormed :=
  ⟨hwf.keys.sublist (hsrcs.map _), hwf.records.sublist (hsrcs.map _),
    fun entry hentry => hmade ▸ hwf.made entry (hsrcs.subset hentry)⟩

/-- A heap in which a source's two buckets were charged. -/
def LimiterHeap.putBuckets (h : LimiterHeap) (record : Nat) (obj byt : Bucket) : LimiterHeap :=
  { h with
    bucket := Function.update (Function.update h.bucket (.srcObj record) obj) (.srcByt record)
      byt }

/-- The record a lane gets is the one of the source it asked for: to charge its buckets is
to store them for that source. -/
structure LimiterHeap.Tracks (h : LimiterHeap) (cfg : BEEFRateConfig) (key : String) (now : Time)
    (found : Nat × LimiterHeap) (tracked : SrcBuckets × BEEFLimiter) : Prop where
  obj : found.2.bucket (.srcObj found.1) = tracked.1.obj
  byt : found.2.bucket (.srcByt found.1) = tracked.1.byt
  shows : ∀ obj byt, (found.2.putBuckets found.1 obj byt).shows cfg =
    tracked.2.putSource key ⟨obj, byt, now⟩

/-- What the table does for a source it has. -/
theorem LimiterHeap.WellFormed.tracks_known (hwf : h.WellFormed) {record : Nat} {seen : Time}
    (hlookup : h.srcs.lookup key = some (record, seen)) (now : Time) :
    h.Tracks cfg key now (h.track env cfg key now) ((h.shows cfg).track env key) := by
  have hfound := h.lookup_source key
  rw [hlookup, Option.map_some] at hfound
  simp only [LimiterHeap.track, BEEFLimiter.track, LimiterHeap.shows, hlookup, hfound]
  refine ⟨rfl, rfl, fun obj byt => ?_⟩
  simp only [BEEFLimiter.putSource, hfound, Option.isSome_some, ↓reduceIte, LimiterHeap.shows]
  refine congrArg (BEEFLimiter.mk cfg (h.bucket .planeObj) (h.bucket .planeByt)) ?_
  rw [LimiterHeap.putBuckets, LimiterHeap.touch, List.map_map, List.map_map]
  apply List.map_congr_left
  intro entry hentry
  have hmine := AssocList.lookup_of_mem hwf.keys hentry
  by_cases hkey : entry.1 = key
  · rw [hkey, hlookup] at hmine
    obtain rfl : entry = (key, record, seen) :=
      Prod.ext hkey (Option.some.inj hmine).symm
    simp [LimiterHeap.source]
  · have hother : entry.2.1 ≠ record := by
      intro hsame
      have hentries := List.inj_on_of_nodup_map hwf.records hentry
        (AssocList.mem_of_lookup hlookup) hsame
      exact hkey (congrArg Prod.fst hentries)
    simp [LimiterHeap.source, hkey, hother]

/-- What it does for a new one, with room made if there was none. -/
theorem LimiterHeap.WellFormed.tracks_new (hwf : h.WellFormed) (hlookup : h.srcs.lookup key = none)
    (now : Time) :
    h.Tracks cfg key now (h.track env cfg key now) ((h.shows cfg).track env key) := by
  have hroom := hwf.sublist (h.makeRoom_sublist env cfg).1 (h.makeRoom_sublist env cfg).2
  have habsent := h.makeRoom_absent env cfg hlookup
  have hnew : ((h.makeRoom env cfg).shows cfg).srcs.lookup key = none := by
    rw [← Option.not_isSome_iff_eq_none, AssocList.isSome_lookup_iff]
    rwa [show ((h.makeRoom env cfg).shows cfg).srcs.map Prod.fst = _ from
      (h.makeRoom env cfg).keys_source]
  rw [h.track_shows hlookup]
  simp only [LimiterHeap.track, hlookup]
  generalize h.makeRoom env cfg = room at hroom hnew
  refine ⟨by simp [LimiterHeap.enter], by simp [LimiterHeap.enter], fun obj byt => ?_⟩
  simp only [BEEFLimiter.putSource, hnew, Option.isSome_none, Bool.false_eq_true, ↓reduceIte]
  have hkept : (room.srcs.map ((room.enter cfg key now).putBuckets room.made obj byt).source) =
      room.srcs.map room.source := by
    apply List.map_congr_left
    intro entry hentry
    have hold : entry.2.1 ≠ room.made := Nat.ne_of_lt (hroom.made entry hentry)
    simp [LimiterHeap.source, LimiterHeap.putBuckets, LimiterHeap.enter, hold]
  have hadded : ((room.enter cfg key now).putBuckets room.made obj byt).source
      (key, room.made, now) = (key, ⟨obj, byt, now⟩) := by
    simp [LimiterHeap.source, LimiterHeap.putBuckets]
  refine BEEFLimiter.mk.injEq .. ▸ ⟨rfl, ?_, ?_, ?_⟩
  · simp [LimiterHeap.putBuckets, LimiterHeap.enter, LimiterHeap.shows]
  · simp [LimiterHeap.putBuckets, LimiterHeap.enter, LimiterHeap.shows]
  · refine (List.map_append ..).trans ?_
    rw [hkept, List.map_singleton, hadded]
    rfl

variable (env cfg) in
theorem LimiterHeap.WellFormed.tracks (hwf : h.WellFormed) (key : String) (now : Time) :
    h.Tracks cfg key now (h.track env cfg key now) ((h.shows cfg).track env key) := by
  cases hlookup : h.srcs.lookup key with
  | none => exact hwf.tracks_new hlookup now
  | some found => exact hwf.tracks_known hlookup now

theorem exec_allowN (ref : BucketRef) (now : Time) (n : Nat) (h : LimiterHeap) :
    (LimiterProg.allowN ref now n).exec (limiterStep env cfg) h = h.charge ref now n :=
  rfl

/-- The charges of the source tier, on the record that was found. -/
theorem LimiterHeap.Tracks.exec {found : Nat × LimiterHeap} {tracked : SrcBuckets × BEEFLimiter}
    (htracks : h.Tracks cfg key now found tracked) (n : Nat) :
    let ran := (LimiterProg.chargeSource n now found.1).exec (limiterStep env cfg) found.2
    (ran.1, ran.2.shows cfg) =
      ((tracked.1.charge n now).1, tracked.2.putSource key (tracked.1.charge n now).2) := by
  obtain ⟨hobj, hbyt, hshows⟩ := htracks
  have hafter : ∀ obj, Function.update found.2.bucket (.srcObj found.1) obj (.srcByt found.1) =
      tracked.1.byt := fun obj => (Function.update_of_ne (by simp) _ _).trans hbyt
  simp only [LimiterProg.chargeSource, Script.exec_bind, exec_allowN, LimiterHeap.charge, hobj,
    Nat.cast_one]
  cases hgave : (tracked.1.obj.allowN now 1).1 with
  | true =>
      simp only [SrcBuckets.charge, hgave, ↓reduceIte, exec_allowN, LimiterHeap.charge, hafter]
      exact Prod.ext rfl (hshows _ _)
  | false =>
      simp only [SrcBuckets.charge, hgave, Bool.false_eq_true, ↓reduceIte, Script.exec]
      refine Prod.ext rfl ?_
      rw [← hshows, ← hafter (tracked.1.obj.allowN now 1).2, LimiterHeap.putBuckets,
        Function.update_eq_self]

variable (env cfg) in
theorem exec_allowSource (hwf : h.WellFormed) (src : NetAddr) (n : Nat) (now : Time) :
    let ran := (LimiterProg.allowSource env cfg src n now).exec (limiterStep env cfg) h
    (ran.1, ran.2.shows cfg) = (h.shows cfg).allowSource env src n now := by
  by_cases hfree : (h.shows cfg).SourcesFree
  · have hprog : LimiterProg.allowSource env cfg src n now = .done true := if_pos hfree
    rw [BEEFLimiter.allowSource_free hfree, hprog]
    rfl
  · have hprog : LimiterProg.allowSource env cfg src n now =
        (LimiterProg.track (sourceKey env src cfg.sourcePrefixBits) now).bind
          (LimiterProg.chargeSource n now) := if_neg hfree
    rw [BEEFLimiter.allowSource_eq hfree, hprog, Script.exec_bind]
    exact (hwf.tracks env cfg _ now).exec n

/-- The two plane buckets asked for an object, the second only if the first gave. -/
def BEEFLimiter.chargePlane (l : BEEFLimiter) (n : Nat) (now : Time) :
    RateDecision × BEEFLimiter :=
  if (l.planeObj.allowN now 1).1 then
    (if (l.planeByt.allowN now n).1 then .allow else .denyPlane,
      { l with planeObj := (l.planeObj.allowN now 1).2, planeByt := (l.planeByt.allowN now n).2 })
  else (.denyPlane, { l with planeObj := (l.planeObj.allowN now 1).2 })

theorem BEEFLimiter.allow_eq (l : BEEFLimiter) (henabled : l.enabled = true) (src : NetAddr)
    (n : Nat) (now : Time) :
    l.allow env (some src) n now =
      if (l.allowSource env src n now).1 then (l.allowSource env src n now).2.chargePlane n now
      else (.denySource, (l.allowSource env src n now).2) := by
  simp only [BEEFLimiter.allow, henabled, BEEFLimiter.chargePlane, Bool.not_true,
    Bool.false_eq_true, ↓reduceIte]
  cases (l.allowSource env src n now).1 with
  | false => rfl
  | true =>
      cases ((l.allowSource env src n now).2.planeObj.allowN now 1).1 <;> rfl

theorem exec_allowPlane (h : LimiterHeap) (n : Nat) (now : Time) :
    let ran := (LimiterProg.allowPlane n now).exec (limiterStep env cfg) h
    (ran.1, ran.2.shows cfg) = (h.shows cfg).chargePlane n now := by
  simp only [LimiterProg.allowPlane, Script.exec_bind, exec_allowN, LimiterHeap.charge,
    BEEFLimiter.chargePlane, LimiterHeap.shows, Nat.cast_one]
  by_cases hgave : ((h.bucket .planeObj).allowN now 1).1 = true
  · simp [hgave, Script.exec, Script.exec_bind, exec_allowN, LimiterHeap.charge,
      LimiterHeap.source]
    rfl
  · simp [hgave, Script.exec, LimiterHeap.source]

variable (env cfg) in
/-- A lane that nobody disturbs charges its object as `allow` does. -/
theorem exec_allow (hwf : h.WellFormed) (src : NetAddr) (n : Nat) (now : Time) :
    let ran := (LimiterProg.allow env cfg src n now).exec (limiterStep env cfg) h
    (ran.1, ran.2.shows cfg) = (h.shows cfg).allow env (some src) n now := by
  have hsame : (h.shows cfg).enabled = cfg.enabled := rfl
  cases henabled : cfg.enabled with
  | false => simp [LimiterProg.allow, BEEFLimiter.allow, hsame, henabled, Script.exec]
  | true =>
      have hsource := exec_allowSource env cfg hwf src n now
      rw [BEEFLimiter.allow_eq _ (hsame.trans henabled), ← hsource]
      simp only [LimiterProg.allow, henabled, ↓reduceIte, Script.exec_bind]
      cases ((LimiterProg.allowSource env cfg src n now).exec (limiterStep env cfg) h).1 with
      | true => exact exec_allowPlane _ n now
      | false => rfl

theorem LimiterHeap.WellFormed.enter (hwf : h.WellFormed) (habsent : key ∉ h.srcs.map Prod.fst)
    (now : Time) : (h.enter cfg key now).WellFormed := by
  refine ⟨?_, ?_, ?_⟩
  · simp only [LimiterHeap.enter, List.map_append, List.map_singleton]
    exact hwf.keys.append (List.nodup_singleton _) (List.disjoint_singleton.mpr habsent)
  · simp only [LimiterHeap.enter, List.map_append, List.map_singleton]
    refine hwf.records.append (List.nodup_singleton _) (List.disjoint_singleton.mpr ?_)
    intro hmem
    obtain ⟨entry, hentry, hsame⟩ := List.mem_map.mp hmem
    exact absurd hsame (Nat.ne_of_lt (hwf.made entry hentry))
  · intro entry hentry
    rcases List.mem_append.mp hentry with hold | hnew
    · exact Nat.lt_succ_of_lt (hwf.made entry hold)
    · obtain rfl := List.mem_singleton.mp hnew
      exact Nat.lt_succ_self _

theorem LimiterHeap.WellFormed.touch (hwf : h.WellFormed) (key : String) (now : Time) :
    (h.touch key now).WellFormed := by
  have hkeys : (h.touch key now).srcs.map Prod.fst = h.srcs.map Prod.fst := by
    rw [LimiterHeap.touch, List.map_map]
    refine List.map_congr_left fun entry _ => ?_
    by_cases hkey : entry.1 = key <;> simp [hkey]
  have hrecords : (h.touch key now).srcs.map (fun entry => entry.2.1) =
      h.srcs.map fun entry => entry.2.1 := by
    rw [LimiterHeap.touch, List.map_map]
    refine List.map_congr_left fun entry _ => ?_
    by_cases hkey : entry.1 = key <;> simp [hkey]
  refine ⟨hkeys ▸ hwf.keys, hrecords ▸ hwf.records, ?_⟩
  intro entry hentry
  have hrecord : entry.2.1 ∈ h.srcs.map fun entry => entry.2.1 :=
    hrecords ▸ List.mem_map_of_mem hentry
  obtain ⟨old, hold, hsame⟩ := List.mem_map.mp hrecord
  exact hsame ▸ hwf.made old hold

theorem LimiterHeap.WellFormed.track (hwf : h.WellFormed) (key : String) (now : Time) :
    (h.track env cfg key now).2.WellFormed := by
  cases hlookup : h.srcs.lookup key with
  | some found =>
      simp only [LimiterHeap.track, hlookup]
      exact hwf.touch key now
  | none =>
      have hroom := h.makeRoom_sublist env cfg
      have habsent := h.makeRoom_absent env cfg hlookup
      simp only [LimiterHeap.track, hlookup]
      exact (hwf.sublist hroom.1 hroom.2).enter habsent now

/-- Whatever a lane does, the table stays in order. -/
theorem LimiterHeap.WellFormed.step (hwf : h.WellFormed) (op : LimiterOp) :
    (limiterStep env cfg op h).2.WellFormed := by
  cases op with
  | track key now => exact hwf.track key now
  | allowN ref now n => exact ⟨hwf.keys, hwf.records, hwf.made⟩

end Alone

section Doors

variable {I : Type} [DecidableEq I] (env : Env) (cfg : BEEFRateConfig)

/-- The lanes of a door, each with its objects in order. -/
def doorLanes (reqs : I → List RateRequest) :
    System I LimiterHeap LimiterOp LimiterOp.Answer RateDecision where
  job i n := (reqs i)[n]?.map fun req => LimiterProg.allow env cfg req.src req.size req.now
  does _ op h answer h' := limiterStep env cfg op h = (answer, h')
  surrounds _ _ := False

abbrev DoorWorld (I : Type) : Type := World I LimiterHeap LimiterOp LimiterOp.Answer RateDecision

/-- What a bucket gave by an operation. -/
def BucketRef.gave (ref : BucketRef) (cap : Rat) : Exchange LimiterOp LimiterOp.Answer → Rat
  | ⟨.allowN asked _ n, (ok : Bool)⟩ => if asked = ref ∧ ok = true then min n cap else 0
  | _ => 0

def BucketRef.grant (ref : BucketRef) (now : Time) (n : Nat) :
    Exchange LimiterOp LimiterOp.Answer :=
  ⟨.allowN ref now n, true⟩

theorem BucketRef.gave_grant (ref : BucketRef) (cap : Rat) (now : Time) (n : Nat) :
    ref.gave cap (ref.grant now n) = min (n : Rat) cap :=
  if_pos ⟨rfl, rfl⟩

/-- The buckets of the plane, with the rate each is made for and what an object of some
size asks of it. -/
inductive OfPlane (cfg : BEEFRateConfig) : BucketRef → Rat → (Nat → Nat) → Prop where
  | objects : OfPlane cfg .planeObj cfg.planeObjectsPerSec fun _ => 1
  | bytes : OfPlane cfg .planeByt cfg.planeBytesPerSec fun n => n

/-- The size of the object of a job. -/
def offered (reqs : I → List RateRequest) (job : I × Nat) : Nat :=
  ((reqs job.1)[job.2]?.map RateRequest.size).getD 0

end Doors

/-- What a bucket holds, and when it was last looked at. -/
def Bucket.held (b : Bucket) : Level Rat :=
  ⟨b.tokens, seconds b.last⟩

/-- A charge is a draw, whichever way the clock went since the last. -/
theorem Bucket.Budget.draw {b : Bucket} {perSec : Rat} (hbudget : b.Budget perSec)
    (hpos : 0 < perSec) (now : Time) (n : Rat) :
    Draw perSec perSec b.held (seconds now)
      (if (b.allowN now n).1 = true then min n perSec else 0) (b.allowN now n).2.held := by
  have hdepth : b.burst = perSec := hbudget.burst.trans (max_eq_left hpos.le)
  have hspeed : b.rate = perSec := hbudget.rate.trans (max_eq_left hpos.le)
  have hlast : (b.allowN now n).2.last = (b.refill now).last := by
    rw [hbudget.allowN_eq hpos]
    split <;> rfl
  have hspent : (b.allowN now n).2.tokens +
      (if (b.allowN now n).1 = true then min n perSec else 0) = b.level now := by
    rw [hbudget.allowN_eq hpos, hdepth]
    split
    · exact add_zero _
    · exact sub_add_cancel _ _
  rcases le_or_gt b.last now with hlater | hstale
  · refine .later (seconds_le_seconds hlater) ?_ ?_
    · exact congrArg seconds (hlast.trans (Bucket.refill_last hlater))
    · have hlevel := hbudget.level_le_fill hlater
      rw [hdepth, hspeed] at hlevel
      exact hspent.trans_le hlevel
  · have hset : b.last ≠ 0 := Nat.ne_of_gt (Nat.zero_lt_of_lt hstale)
    have hsame := Bucket.refill_stale hset hstale.le
    refine .stale (seconds_le_seconds hstale.le) ?_ ?_
    · exact congrArg seconds (hlast.trans (congrArg Bucket.last hsame))
    · exact (hspent.trans (congrArg Bucket.tokens hsame)).le

section Races

variable {I : Type} [DecidableEq I] {env : Env} {cfg : BEEFRateConfig}
  {reqs : I → List RateRequest} {w w' : DoorWorld I} {ref : BucketRef} {perSec : Rat}
  {ask : Nat → Nat}

theorem LimiterHeap.track_bucket (h : LimiterHeap) (key : String) (now : Time) {ref : BucketRef}
    (href : ∀ record, ref ≠ .srcObj record ∧ ref ≠ .srcByt record) :
    (h.track env cfg key now).2.bucket ref = h.bucket ref := by
  simp only [LimiterHeap.track]
  split
  · rfl
  · have hroom : (h.makeRoom env cfg).bucket = h.bucket := by
      simp only [LimiterHeap.makeRoom, LimiterHeap.evictOldest]
      split_ifs <;> rfl
    simp only [LimiterHeap.enter, Function.update_of_ne (href _).1,
      Function.update_of_ne (href _).2, hroom]

theorem OfPlane.ne_source (href : OfPlane cfg ref perSec ask) (record : Nat) :
    ref ≠ .srcObj record ∧ ref ≠ .srcByt record := by
  cases href <;> simp

/-- An operation leaves a bucket of the plane alone, or charges it. -/
theorem OfPlane.does (href : OfPlane cfg ref perSec ask) {op : LimiterOp} {answer : op.Answer}
    {h h' : LimiterHeap} (hdoes : limiterStep env cfg op h = (answer, h')) :
    (h'.bucket ref = h.bucket ref ∧ ref.gave perSec ⟨op, answer⟩ = 0) ∨
      ∃ n : Nat, h'.bucket ref = ((h.bucket ref).allowN op.now n).2 ∧
        ref.gave perSec ⟨op, answer⟩ =
          if ((h.bucket ref).allowN op.now n).1 = true then min (n : Rat) perSec else 0 := by
  obtain ⟨rfl, rfl⟩ := Prod.mk.inj hdoes
  cases op with
  | track key now => exact Or.inl ⟨h.track_bucket key now href.ne_source, rfl⟩
  | allowN asked now n =>
      by_cases hsame : asked = ref
      · subst hsame
        refine Or.inr ⟨n, Function.update_self _ _ _, ?_⟩
        simp only [BucketRef.gave, LimiterHeap.charge, LimiterOp.now, true_and]
        rfl
      · refine Or.inl ⟨Function.update_of_ne (Ne.symm hsame) _ _, ?_⟩
        simp only [BucketRef.gave, hsame, false_and, ↓reduceIte]

theorem OfPlane.start (href : OfPlane cfg ref perSec ask) :
    ((LimiterHeap.start cfg).bucket ref).Budget perSec := by
  cases href <;> exact newBucket_budget _

theorem OfPlane.budget_does (href : OfPlane cfg ref perSec ask) {op : LimiterOp}
    {answer : op.Answer} {h h' : LimiterHeap} (hdoes : limiterStep env cfg op h = (answer, h'))
    (hbudget : (h.bucket ref).Budget perSec) : (h'.bucket ref).Budget perSec := by
  rcases href.does hdoes with ⟨hsame, _⟩ | ⟨n, hcharged, _⟩
  · rwa [hsame]
  · rw [hcharged]
    exact hbudget.allowN _ (Nat.cast_nonneg n)

theorem OfPlane.budget (href : OfPlane cfg ref perSec ask)
    (hreach : Reachable (doorLanes env cfg reqs) (LimiterHeap.start cfg) w) :
    (w.shared.bucket ref).Budget perSec :=
  AtomicOps.Reachable.invariant (fun h _ => (h.bucket ref).Budget perSec) href.start
    (fun _ _ _ _ _ _ _ hbudget hdoes => href.budget_does hdoes hbudget)
    (fun _ _ _ _ hnothing => False.elim hnothing) hreach

/-- What a bucket of the plane has given in a stretch, if all readings of the clock in it
are from `lo` to `hi`. -/
structure PlaneAccount (ref : BucketRef) (perSec : Rat) (lo hi : Time) (h : LimiterHeap)
    (stretch : List ((I × Nat) × Exchange LimiterOp LimiterOp.Answer)) : Prop where
  budget : (h.bucket ref).Budget perSec
  given : (∀ entry ∈ stretch, lo ≤ entry.2.op.now ∧ entry.2.op.now ≤ hi) →
    GivenSince perSec perSec (seconds lo) (seconds hi) (h.bucket ref).held
      (stretch.map fun entry => ref.gave perSec entry.2).sum

omit [DecidableEq I] in
theorem PlaneAccount.start (hpos : 0 < perSec) {h : LimiterHeap}
    (hbudget : (h.bucket ref).Budget perSec) (lo hi : Time) :
    PlaneAccount (I := I) ref perSec lo hi h [] :=
  ⟨hbudget, fun _ => .start hpos.le
    (hbudget.le_burst.trans_eq (hbudget.burst.trans (max_eq_left hpos.le)))⟩

omit [DecidableEq I] in
theorem PlaneAccount.does (href : OfPlane cfg ref perSec ask) (hpos : 0 < perSec) {lo hi : Time}
    {op : LimiterOp} {answer : op.Answer} {h h' : LimiterHeap}
    {stretch : List ((I × Nat) × Exchange LimiterOp LimiterOp.Answer)}
    (haccount : PlaneAccount ref perSec lo hi h stretch)
    (hdoes : limiterStep env cfg op h = (answer, h')) (job : I × Nat) :
    PlaneAccount ref perSec lo hi h' (stretch ++ [(job, ⟨op, answer⟩)]) := by
  refine ⟨href.budget_does hdoes haccount.budget, fun hclock => ?_⟩
  have hbefore := haccount.given fun entry hentry => hclock entry (List.mem_append_left _ hentry)
  obtain ⟨hlo, hhi⟩ := hclock _ (List.mem_append_right _ (List.mem_singleton_self _))
  rw [List.map_append, List.sum_append, List.map_singleton, List.sum_singleton]
  rcases href.does hdoes with ⟨hsame, hnothing⟩ | ⟨m, hcharged, hgave⟩
  · rw [hsame, hnothing, add_zero]
    exact hbefore
  · rw [hcharged, hgave]
    exact hbefore.draw hpos.le (haccount.budget.draw hpos _ _) (seconds_le_seconds hlo)
      (seconds_le_seconds hhi)

/-- In any stretch of a run, however the lanes take turns and in whatever order their
readings of the clock come, a bucket of the plane gives no more than it holds when full and
what comes in between the earliest and the latest reading. -/
theorem OfPlane.given_le (href : OfPlane cfg ref perSec ask) (hpos : 0 < perSec)
    (hreach : Reachable (doorLanes env cfg reqs) (LimiterHeap.start cfg) w)
    (hsteps : Relation.ReflTransGen (Step (doorLanes env cfg reqs)) w w') {lo hi : Time}
    (hwindow : lo ≤ hi)
    (hclock : ∀ entry ∈ w'.history.drop w.history.length,
      lo ≤ entry.2.op.now ∧ entry.2.op.now ≤ hi) :
    ((w'.history.drop w.history.length).map fun entry => ref.gave perSec entry.2).sum ≤
      perSec + perSec * (seconds hi - seconds lo) := by
  obtain ⟨stretch, hstretch, haccount⟩ := steps_invariant (PlaneAccount ref perSec lo hi)
    (.start hpos (href.budget hreach) lo hi)
    (fun i n _ _ _ _ _ haccount hdoes => haccount.does href hpos hdoes (i, n))
    (fun _ _ _ _ hnothing => False.elim hnothing) hsteps
  rw [hstretch, List.drop_left] at hclock ⊢
  exact (haccount.given hclock).total_le hpos.le haccount.budget.nonneg
    (seconds_le_seconds hwindow)

theorem OfPlane.enabled (href : OfPlane cfg ref perSec ask) (hpos : 0 < perSec) :
    cfg.enabled = true := by
  cases href <;> simp [BEEFRateConfig.enabled, hpos]

variable (env) in
theorem follows_allowSource (src : NetAddr) (n : Nat) (now : Time)
    (m : List (Exchange LimiterOp LimiterOp.Answer)) :
    (LimiterProg.allowSource env cfg src n now).Follows (Monitor.record fun op => op.now = now)
      (fun _ _ => True) m := by
  rw [LimiterProg.allowSource]
  split
  · trivial
  · refine ⟨rfl, fun record => ⟨rfl, fun objOK : Bool => ?_⟩⟩
    cases objOK with
    | false => trivial
    | true => exact ⟨rfl, fun _ => trivial⟩

variable (env) in
/-- An object is charged with the one reading of the clock it came with, and one that is
admitted was given what it asks by both buckets of the plane. -/
theorem follows_allow (src : NetAddr) (n : Nat) (now : Time)
    (href : OfPlane cfg ref perSec ask) (hpos : 0 < perSec) :
    (LimiterProg.allow env cfg src n now).Follows (Monitor.record fun op => op.now = now)
      (fun decision trace => decision = .allow → ref.grant now (ask n) ∈ trace) [] := by
  rw [LimiterProg.allow, if_pos (href.enabled hpos)]
  refine Script.Follows.bind (follows_allowSource env src n now _) ?_
  intro sourceOK m _
  cases sourceOK with
  | false => exact fun hdenied => by cases hdenied
  | true =>
      refine ⟨rfl, fun objOK : Bool => ?_⟩
      cases objOK with
      | false => exact fun hdenied => by cases hdenied
      | true =>
          refine ⟨rfl, fun bytOK : Bool => ?_⟩
          cases bytOK with
          | false => exact fun hdenied => by cases hdenied
          | true =>
              intro _
              cases href with
              | objects =>
                  exact List.mem_append_left _
                    (List.mem_append_right _ (List.mem_singleton_self _))
              | bytes => exact List.mem_append_right _ (List.mem_singleton_self _)

omit [DecidableEq I] in
theorem doorLanes_job {i : I} {n : Nat} {p : LimiterProg RateDecision}
    (hjob : (doorLanes env cfg reqs).job i n = some p) :
    ∃ req, (reqs i)[n]? = some req ∧ p = LimiterProg.allow env cfg req.src req.size req.now := by
  obtain ⟨req, hreq, hp⟩ := Option.map_eq_some_iff.mp hjob
  exact ⟨req, hreq, hp.symm⟩

/-- What was done for an object was done with its reading of the clock. -/
theorem OfPlane.op_now (href : OfPlane cfg ref perSec ask) (hpos : 0 < perSec)
    (hreach : Reachable (doorLanes env cfg reqs) (LimiterHeap.start cfg) w)
    {entry : (I × Nat) × Exchange LimiterOp LimiterOp.Answer} (hentry : entry ∈ w.history) :
    ∃ req, (reqs entry.1.1)[entry.1.2]? = some req ∧ entry.2.op.now = req.now := by
  have hmem : entry.2 ∈ w.trace entry.1 := mem_trace.mpr hentry
  obtain ⟨p, q, hjob, hpath⟩ :=
    (hreach.standing entry.1.1 entry.1.2).path (List.ne_nil_of_mem hmem)
  obtain ⟨req, hreq, rfl⟩ := doorLanes_job hjob
  exact ⟨req, hreq,
    (follows_allow env req.src req.size req.now href hpos).may hpath entry.2 hmem⟩

theorem BucketRef.gave_nonneg {cap : Rat} (hcap : 0 ≤ cap)
    (event : Exchange LimiterOp LimiterOp.Answer) : 0 ≤ ref.gave cap event := by
  obtain ⟨op, answer⟩ := event
  cases op with
  | track key now => exact le_refl 0
  | allowN asked now n =>
      simp only [BucketRef.gave]
      split
      · exact le_min (Nat.cast_nonneg n) hcap
      · exact le_refl 0

theorem OfPlane.granted (href : OfPlane cfg ref perSec ask) (hpos : 0 < perSec)
    (hreach : Reachable (doorLanes env cfg reqs) (LimiterHeap.start cfg) w) {job : I × Nat}
    (hresult : w.result job = some .allow) :
    ∃ now, ref.grant now (ask (offered reqs job)) ∈ w.trace job := by
  obtain ⟨p, hjob, hpath⟩ := (hreach.standing job.1 job.2).of_result hresult
  obtain ⟨req, hreq, rfl⟩ := doorLanes_job hjob
  have hsize : offered reqs job = req.size := by
    rw [offered, hreq]
    rfl
  have hends := (follows_allow env req.src req.size req.now href hpos).path hpath
  rw [Monitor.after_record, List.nil_append] at hends
  exact ⟨req.now, hsize ▸ hends rfl⟩

/-- All objects that were charged in a stretch came with a reading of the clock from `lo`
to `hi`. -/
def ChargedWithin (reqs : I → List RateRequest) (w w' : DoorWorld I) (lo hi : Time) : Prop :=
  ∀ entry ∈ w'.history.drop w.history.length, ∀ req, (reqs entry.1.1)[entry.1.2]? = some req →
    lo ≤ req.now ∧ req.now ≤ hi

/-- What the admitted objects of a stretch ask of a bucket of the plane. -/
theorem OfPlane.admitted_le (href : OfPlane cfg ref perSec ask) (hpos : 0 < perSec)
    (hreach : Reachable (doorLanes env cfg reqs) (LimiterHeap.start cfg) w)
    (hsteps : Relation.ReflTransGen (Step (doorLanes env cfg reqs)) w w') {lo hi : Time}
    (hwindow : lo ≤ hi) (hclock : ChargedWithin reqs w w' lo hi)
    {admitted : List (I × Nat)} (hnodup : admitted.Nodup)
    (hadmitted : ∀ job ∈ admitted, w.trace job = [] ∧ w'.result job = some .allow)
    (hfits : ∀ job ∈ admitted, (ask (offered reqs job) : Rat) ≤ perSec) :
    (admitted.map fun job => (ask (offered reqs job) : Rat)).sum ≤
      perSec + perSec * (seconds hi - seconds lo) := by
  have hclock' : ∀ entry ∈ w'.history.drop w.history.length,
      lo ≤ entry.2.op.now ∧ entry.2.op.now ≤ hi := by
    intro entry hentry
    obtain ⟨req, hreq, hnow⟩ :=
      href.op_now hpos (hreach.steps hsteps) (List.mem_of_mem_drop hentry)
    rw [hnow]
    exact hclock entry hentry req hreq
  refine (sum_le_of_entries (ref.gave perSec) (fun _ _ => BucketRef.gave_nonneg hpos.le _)
    hnodup _ ?_).trans (href.given_le hpos hreach hsteps hwindow hclock')
  intro job hjob
  obtain ⟨hfresh, hresult⟩ := hadmitted job hjob
  obtain ⟨now, hgranted⟩ := href.granted hpos (hreach.steps hsteps) hresult
  refine ⟨ref.grant now (ask (offered reqs job)), ?_, ?_⟩
  · obtain ⟨stretch, hstretch, -⟩ := steps_invariant (fun _ _ => True) trivial
      (fun _ _ _ _ _ _ _ _ _ => trivial) (fun _ _ _ _ _ => trivial) hsteps
    rw [mem_trace, hstretch] at hgranted
    rw [hstretch, List.drop_left]
    -- the job had done nothing when the stretch began
    refine (List.mem_append.mp hgranted).resolve_left fun hbefore => ?_
    rw [← mem_trace, hfresh] at hbefore
    cases hbefore
  · rw [BucketRef.gave_grant]
    exact le_min (le_refl _) (hfits job hjob)

/-- However many lanes charge their objects at once, and however old the clock readings they
come with: in any stretch of a run, the objects admitted of those that came to the door in it
are no more than the plane's object budget, of at least one a second, for the time between
the earliest and the latest reading and one second more; and their bytes no more than its
byte budget, if no object is larger than a second's worth. -/
theorem door_bounded_in_races
    (hreach : Reachable (doorLanes env cfg reqs) (LimiterHeap.start cfg) w)
    (hsteps : Relation.ReflTransGen (Step (doorLanes env cfg reqs)) w w') {lo hi : Time}
    (hwindow : lo ≤ hi) (hclock : ChargedWithin reqs w w' lo hi)
    {admitted : List (I × Nat)} (hnodup : admitted.Nodup)
    (hadmitted : ∀ job ∈ admitted, w.trace job = [] ∧ w'.result job = some .allow) :
    (1 ≤ cfg.planeObjectsPerSec →
        (admitted.length : Rat) ≤ cfg.planeObjectsPerSec * (1 + (seconds hi - seconds lo))) ∧
      (0 < cfg.planeBytesPerSec →
        (∀ job ∈ admitted, (offered reqs job : Rat) ≤ cfg.planeBytesPerSec) →
        (admitted.map fun job => (offered reqs job : Rat)).sum ≤
          cfg.planeBytesPerSec * (1 + (seconds hi - seconds lo))) := by
  constructor
  · intro hobjects
    have hcount := OfPlane.objects.admitted_le (zero_lt_one.trans_le hobjects) hreach hsteps
      hwindow hclock hnodup hadmitted fun _ _ => by simpa using hobjects
    rw [mul_add, mul_one]
    simpa using hcount
  · intro hbytes hsizes
    rw [mul_add, mul_one]
    exact OfPlane.bytes.admitted_le hbytes hreach hsteps hwindow hclock hnodup hadmitted hsizes

theorem wellFormed_of_reachable
    (hreach : Reachable (doorLanes env cfg reqs) (LimiterHeap.start cfg) w) :
    w.shared.WellFormed := by
  refine AtomicOps.Reachable.invariant (fun h _ => h.WellFormed) ?_ ?_ ?_ hreach
  · exact ⟨List.nodup_nil, List.nodup_nil, fun _ hnone => by cases hnone⟩
  · intro _ _ op h answer h' _ hwf hdoes
    obtain ⟨rfl, rfl⟩ := Prod.mk.inj hdoes
    exact hwf.step op
  · exact fun _ _ _ _ hnothing => False.elim hnothing

/-- A lane may charge an object as a whole: among the orders of steps is the one in which
nobody else moves, and there the charge is the one of `allow`. -/
theorem allow_alone (hreach : Reachable (doorLanes env cfg reqs) (LimiterHeap.start cfg) w)
    {i : I} (hidle : w.running i = none) {req : RateRequest}
    (hreq : (reqs i)[w.finished i]? = some req) :
    ∃ w', Relation.ReflTransGen (Step (doorLanes env cfg reqs)) w w' ∧
      w'.shared.shows cfg =
        ((w.shared.shows cfg).allow env (some req.src) req.size req.now).2 ∧
      w'.finished = Function.update w.finished i (w.finished i + 1) ∧
      w'.running = w.running ∧
      w'.result = Function.update w.result (i, w.finished i)
        (some ((w.shared.shows cfg).allow env (some req.src) req.size req.now).1) := by
  have hjob : (doorLanes env cfg reqs).job i (w.finished i) =
      some (LimiterProg.allow env cfg req.src req.size req.now) := by
    simp only [doorLanes, hreq]
    rfl
  have hsteps : Relation.ReflTransGen (Step (doorLanes env cfg reqs)) w _ :=
    job_alone (limiterStep env cfg) (fun op s => rfl) hidle hjob
  have hran := exec_allow env cfg (wellFormed_of_reachable hreach) req.src req.size req.now
  refine ⟨_, hsteps, congrArg Prod.snd hran, rfl, rfl, ?_⟩
  exact congrArg (fun decision => Function.update w.result (i, w.finished i) (some decision))
    (congrArg Prod.fst hran)

end Races

section Sample

/-- Two lanes with an object each; the one that comes second read the clock first. -/
def heldUpLanes : Bool → List RateRequest
  | false => [⟨Reference.source 1, 100, 2000000000⟩]
  | true => [⟨Reference.source 2, 100, 1000000000⟩]

/-- Both objects are admitted, within the budget. -/
theorem door_bounded_heldUp :
    ∃ w : DoorWorld Bool,
      (∀ lane, w.result (lane, 0) = some .allow) ∧
        (([(false, 0), (true, 0)] : List (Bool × Nat)).length : Rat) ≤
            (planeOnly 10 100000).planeObjectsPerSec *
              (1 + (seconds 2000000000 - seconds 1000000000)) ∧
        ([(false, 0), (true, 0)].map fun job => (offered heldUpLanes job : Rat)).sum ≤
          (planeOnly 10 100000).planeBytesPerSec *
            (1 + (seconds 2000000000 - seconds 1000000000)) := by
  have hinitial : Reachable (doorLanes Reference.env (planeOnly 10 100000) heldUpLanes)
      (LimiterHeap.start (planeOnly 10 100000))
      (World.initial (LimiterHeap.start (planeOnly 10 100000))) := .initial
  obtain ⟨w, hsteps, hshown, hfinished, hrunning, hresult⟩ :=
    allow_alone (i := false) hinitial rfl rfl
  have hidle : w.running true = none := by
    rw [hrunning]
    rfl
  have hnext : w.finished true = 0 := by
    rw [hfinished]
    rfl
  have hreq : (heldUpLanes true)[w.finished true]? =
      some ⟨Reference.source 2, 100, 1000000000⟩ := by
    rw [hnext]
    rfl
  obtain ⟨w', hsteps', -, -, -, hresult'⟩ := allow_alone (hinitial.steps hsteps) hidle hreq
  have hallowed : ∀ lane, w'.result (lane, 0) = some .allow := by
    intro lane
    rw [hresult', hnext, hresult, hshown]
    cases lane <;> decide +kernel
  have hclock : ChargedWithin heldUpLanes
      (World.initial (LimiterHeap.start (planeOnly 10 100000))) w' 1000000000 2000000000 := by
    intro entry _ req hreq
    have hmem := List.mem_of_getElem? hreq
    cases hlane : entry.1.1 with
    | false =>
        rw [hlane] at hmem
        obtain rfl := List.mem_singleton.mp hmem
        decide
    | true =>
        rw [hlane] at hmem
        obtain rfl := List.mem_singleton.mp hmem
        decide
  have hadmitted : ∀ job ∈ [(false, 0), (true, 0)],
      (World.initial (LimiterHeap.start (planeOnly 10 100000)) : DoorWorld Bool).trace job = [] ∧
        w'.result job = some .allow := by
    intro job hjob
    refine ⟨rfl, ?_⟩
    rcases List.mem_pair.mp hjob with rfl | rfl <;> exact hallowed _
  obtain ⟨hobjects, hbytes⟩ := door_bounded_in_races hinitial (hsteps.trans hsteps') (by decide)
    hclock (by decide) hadmitted
  refine ⟨w', hallowed, hobjects (by norm_num [planeOnly]), hbytes (by norm_num [planeOnly]) ?_⟩
  intro job hjob
  rcases List.mem_pair.mp hjob with rfl | rfl <;> norm_num [offered, heldUpLanes, planeOnly]

end Sample

end ShardProxy
