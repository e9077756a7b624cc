/-
What one door emits.  The plane's buckets meter every object from every source.
While an object asks for no more than a bucket holds, what is admitted in a window
of time is bounded by the configured rate and one full bucket.  An object that asks
for more is charged a full bucket, and the door then emits one a second.
-/
import ShardProxy.RateBudget
import ShardProxy.Reference

namespace ShardProxy

open ByteField TokenBucket

structure RateRequest where
  src : NetAddr
  size : Nat
  now : Time

/-- The weight of what `allow` admits from `lo` to `hi` of a sequence of objects. -/
def BEEFLimiter.emitted (env : Env) (weight : RateRequest → Rat) (lo hi : Rat) :
    BEEFLimiter → List RateRequest → Rat
  | _, [] => 0
  | l, req :: reqs =>
      let asked := l.allow env (some req.src) req.size req.now
      (if (lo ≤ seconds req.now ∧ seconds req.now ≤ hi) ∧ asked.1 = .allow then weight req else 0) +
        BEEFLimiter.emitted env weight lo hi asked.2 reqs

/-- One of the plane's buckets, and what an object of some size asks of it. -/
structure PlaneMeter where
  bucket : BEEFLimiter → Bucket
  ask : Nat → Rat

def objectMeter : PlaneMeter := ⟨BEEFLimiter.planeObj, fun _ => 1⟩

def byteMeter : PlaneMeter := ⟨BEEFLimiter.planeByt, fun n => n⟩

/-- The bucket is asked for an object or left alone, and what is admitted it gave. -/
structure PlaneMeter.Meters (m : PlaneMeter) : Prop where
  nonneg : ∀ n, 0 ≤ m.ask n
  allow : ∀ (env : Env) (l : BEEFLimiter), l.enabled = true → ∀ src n now,
    (m.bucket (l.allow env (some src) n now).2 = m.bucket l ∧
        (l.allow env (some src) n now).1 ≠ .allow) ∨
      m.bucket (l.allow env (some src) n now).2 = ((m.bucket l).allowN now (m.ask n)).2 ∧
        ((l.allow env (some src) n now).1 = .allow → ((m.bucket l).allowN now (m.ask n)).1 = true)

theorem objectMeter_meters : objectMeter.Meters := by
  refine ⟨fun _ => zero_le_one, ?_⟩
  intro env l henabled src n now
  have hplane := (l.allowSource_rest env src n now).2.1
  have hasked := BEEFLimiter.asked env henabled src n now
  generalize l.allow env (some src) n now = out at hasked
  cases hasked with
  | source hsource => exact Or.inl ⟨hplane, nofun⟩
  | objects hsource hobj => exact Or.inr ⟨rfl, nofun⟩
  | bytes hsource hobj hbyt => exact Or.inr ⟨rfl, nofun⟩
  | admitted hsource hobj hbyt => exact Or.inr ⟨rfl, fun _ => hobj⟩

theorem byteMeter_meters : byteMeter.Meters := by
  refine ⟨fun n => Nat.cast_nonneg n, ?_⟩
  intro env l henabled src n now
  have hplane := (l.allowSource_rest env src n now).2.2
  have hasked := BEEFLimiter.asked env henabled src n now
  generalize l.allow env (some src) n now = out at hasked
  cases hasked with
  | source hsource => exact Or.inl ⟨hplane, nofun⟩
  | objects hsource hobj => exact Or.inl ⟨rfl, nofun⟩
  | bytes hsource hobj hbyt => exact Or.inr ⟨rfl, nofun⟩
  | admitted hsource hobj hbyt => exact Or.inr ⟨rfl, fun _ => hbyt⟩

section Window

variable {env : Env} {m : PlaneMeter} {perSec lo hi : Rat} {reqs : List RateRequest}

/-- What an object is charged once the bucket has been asked. -/
def Bucket.cost (b : Bucket) (now : Time) (n : Rat) : Rat :=
  if (b.allowN now n).1 then n else 0

/-- A bucket asked for no more than it holds is drawn on by what it is asked. -/
theorem Bucket.Budget.draws {b : Bucket} (hbudget : b.Budget perSec) (hpos : 0 < perSec)
    {now : Time} (hnow : b.last ≤ now) {n : Rat} (hn : 0 ≤ n) (hle : n ≤ perSec) :
    (b.allowN now n).2.last = now ∧ 0 ≤ b.cost now n ∧
      (b.allowN now n).2.tokens + b.cost now n ≤
        fill perSec b.tokens (perSec * (seconds now - seconds b.last)) := by
  have hdepth : b.burst = perSec := hbudget.burst.trans (max_eq_left hpos.le)
  have hspeed : b.rate = perSec := hbudget.rate.trans (max_eq_left hpos.le)
  have hlevel := hbudget.level_le_fill hnow
  rw [hdepth, hspeed] at hlevel
  have hlast := Bucket.refill_last hnow
  rw [Bucket.cost, hbudget.allowN_eq hpos, hdepth, min_eq_left hle]
  by_cases hrefused : b.level now < n
  · rw [if_pos hrefused]
    exact ⟨hlast, le_refl 0, (add_zero _).trans_le hlevel⟩
  · rw [if_neg hrefused]
    exact ⟨hlast, hn, (sub_add_cancel _ _).trans_le hlevel⟩

variable (env lo hi) in
/-- A sequence of objects draws on a plane bucket, and all it admits is drawn. -/
theorem PlaneMeter.Meters.metered (hmeter : m.Meters) (hpos : 0 < perSec) {l : BEEFLimiter}
    (henabled : l.enabled = true) (hbudget : (m.bucket l).Budget perSec)
    (hsorted : (reqs.map RateRequest.now).Pairwise (· ≤ ·))
    (hlast : ∀ req ∈ reqs, (m.bucket l).last ≤ req.now)
    (hfits : ∀ req ∈ reqs, m.ask req.size ≤ perSec) :
    ∃ draws, Metered perSec perSec ⟨(m.bucket l).tokens, seconds (m.bucket l).last⟩ draws ∧
      draws.map Prod.fst = reqs.map (fun req => seconds req.now) ∧
      l.emitted env (fun req => m.ask req.size) lo hi reqs ≤ drawn lo hi draws := by
  induction reqs generalizing l with
  | nil => exact ⟨[], .nil _, rfl, le_refl 0⟩
  | cons req reqs ih =>
      obtain ⟨hnow, hlasts⟩ := List.forall_mem_cons.mp hlast
      obtain ⟨hfit, hrest⟩ := List.forall_mem_cons.mp hfits
      obtain ⟨hlater, hsorted⟩ := List.pairwise_cons.mp hsorted
      have henabled' : (l.allow env (some req.src) req.size req.now).2.enabled = true :=
        (BEEFLimiter.enabled_of_cfg (l.allow_cfg env _ _ _)).trans henabled
      rcases hmeter.allow env l henabled req.src req.size req.now with
        ⟨hsame, hrefused⟩ | ⟨hasked, hgave⟩
      · obtain ⟨draws, hmetered, htimes, hdrawn⟩ :=
          ih henabled' (hsame ▸ hbudget) hsorted (hsame ▸ hlasts) hrest
        rw [hsame] at hmetered
        refine ⟨(seconds req.now, 0) :: draws, .idle hmetered, ?_, ?_⟩
        · rw [List.map_cons, List.map_cons, htimes]
        · rw [BEEFLimiter.emitted, drawn, ite_self, if_neg fun hadmitted => hrefused hadmitted.2]
          exact add_le_add_right hdrawn 0
      · have hask := hmeter.nonneg req.size
        obtain ⟨hstamp, hcost, hlevel⟩ := hbudget.draws hpos hnow hask hfit
        have hbudget' := hbudget.allowN req.now hask
        rw [← hasked] at hbudget' hstamp hlevel
        have hlasts' : ∀ later ∈ reqs,
            (m.bucket (l.allow env (some req.src) req.size req.now).2).last ≤ later.now := by
          intro later hmem
          rw [hstamp]
          exact hlater _ (List.mem_map_of_mem hmem)
        obtain ⟨draws, hmetered, htimes, hdrawn⟩ :=
          ih henabled' hbudget' hsorted hlasts' hrest
        refine ⟨(seconds req.now, (m.bucket l).cost req.now (m.ask req.size)) :: draws,
          .draw (seconds_le_seconds hnow) (congrArg seconds hstamp) hbudget'.nonneg hcost hlevel
            hmetered, ?_, ?_⟩
        · rw [List.map_cons, List.map_cons, htimes]
        · rw [BEEFLimiter.emitted, drawn]
          refine add_le_add ?_ hdrawn
          by_cases hwindow : lo ≤ seconds req.now ∧ seconds req.now ≤ hi
          · rw [if_pos hwindow]
            by_cases hadmitted : (l.allow env (some req.src) req.size req.now).1 = .allow
            · rw [if_pos ⟨hwindow, hadmitted⟩, Bucket.cost, if_pos (hgave hadmitted)]
            · rw [if_neg fun hboth => hadmitted hboth.2]
              exact hcost
          · rw [if_neg hwindow, if_neg fun hboth => hwindow hboth.1]

variable (env) in
/-- In a window a door emits no more than the rate and one full bucket. -/
theorem PlaneMeter.Meters.emitted_le (hmeter : m.Meters) (hpos : 0 < perSec) {l : BEEFLimiter}
    (henabled : l.enabled = true) (hbudget : (m.bucket l).Budget perSec)
    (hfresh : (m.bucket l).last = 0) (hsorted : (reqs.map RateRequest.now).Pairwise (· ≤ ·))
    (hfits : ∀ req ∈ reqs, m.ask req.size ≤ perSec) (hwindow : lo ≤ hi) :
    l.emitted env (fun req => m.ask req.size) lo hi reqs ≤ perSec + perSec * (hi - lo) := by
  obtain ⟨draws, hmetered, htimes, hdrawn⟩ := hmeter.metered env lo hi
    hpos henabled hbudget hsorted (fun req _ => hfresh ▸ Nat.zero_le _) hfits
  have htimes' : (draws.map Prod.fst).Pairwise (· ≤ ·) := by
    rw [htimes]
    have hmapped := hsorted.map seconds fun _ _ => seconds_le_seconds
    rwa [List.map_map] at hmapped
  exact hdrawn.trans (hmetered.window_le hpos.le hpos.le htimes' hwindow)

end Window

section Door

variable (env : Env)

/-- Every sequence of objects of up to `size` bytes, from any sources at non-decreasing
times, has at most `objects` a second and one bucket admitted in any window of time,
and of their bytes at most `bytes` a second and one bucket. -/
def BoundsDoor (objects bytes : Rat) (size : Nat) : Prop :=
  ∀ cfg : BEEFRateConfig, cfg.planeObjectsPerSec = objects → cfg.planeBytesPerSec = bytes →
    ∀ reqs : List RateRequest, (reqs.map RateRequest.now).Pairwise (· ≤ ·) →
      (∀ req ∈ reqs, req.size ≤ size) → ∀ start span : Rat, 0 ≤ span →
        (newBEEFLimiter cfg).emitted env (fun _ => 1) start (start + span) reqs ≤
            objects * span + max objects 1 ∧
          (newBEEFLimiter cfg).emitted env (fun req => req.size) start (start + span) reqs ≤
            bytes * span + max bytes size

/-- Two objects of one size, a second apart. -/
def secondApart (src : NetAddr) (size : Nat) : List RateRequest :=
  [⟨src, size, 1000000000⟩, ⟨src, size, 2000000000⟩]

variable {env} {objects bytes : Rat} {size : Nat}

variable (env) in
/-- Without a source tier, what both plane buckets give is admitted. -/
theorem allow_of_planes {l : BEEFLimiter} (henabled : l.enabled = true) (hfree : l.SourcesFree)
    {now : Time} {n : Nat} (hobj : (l.planeObj.allowN now 1).1 = true)
    (hbyt : (l.planeByt.allowN now n).1 = true) (src : NetAddr) :
    l.allow env (some src) n now = (.allow, { l with
      planeObj := (l.planeObj.allowN now 1).2, planeByt := (l.planeByt.allowN now n).2 }) := by
  simp only [BEEFLimiter.allow, henabled, BEEFLimiter.allowSource_free hfree, hobj, hbyt,
    Bool.not_true, Bool.false_eq_true, ↓reduceIte]

/-- A bucket asked a second ago, or never, gives. -/
theorem Bucket.Budget.gives_again {perSec : Rat} {b : Bucket} (hbudget : b.Budget perSec)
    {earlier now : Time} (hnever : b.last = 0) (hset : earlier ≠ 0)
    (hsecond : earlier + 1000000000 ≤ now) {n : Rat} (hn : 0 ≤ n) (m : Rat) :
    ((b.allowN earlier n).2.allowN now m).1 = true := by
  rcases le_or_gt perSec 0 with hnone | hpos
  · rw [hbudget.allowN_unlimited hnone, hbudget.allowN_unlimited hnone]
  · have hafter := hbudget.allowN earlier hn
    have hlast : (b.allowN earlier n).2.last = earlier := by
      rw [hbudget.allowN_eq hpos]
      split <;> exact Bucket.refill_last (hnever ▸ Nat.zero_le _)
    apply hafter.gives_of_full
    apply hafter.level_of_second
    · rw [hlast]
      exact hset
    · rw [hlast]
      exact hsecond

/-- Two objects both admitted in the window count both. -/
theorem emitted_two {l : BEEFLimiter} (henabled : l.enabled = true) (hfree : l.SourcesFree)
    {src : NetAddr} {size : Nat} {first second : Time} {lo hi : Rat}
    (hobj : (l.planeObj.allowN first 1).1 = true) (hbyt : (l.planeByt.allowN first size).1 = true)
    (hobj' : ((l.planeObj.allowN first 1).2.allowN second 1).1 = true)
    (hbyt' : ((l.planeByt.allowN first size).2.allowN second size).1 = true)
    (hfirst : lo ≤ seconds first ∧ seconds first ≤ hi)
    (hsecond : lo ≤ seconds second ∧ seconds second ≤ hi) (weight : RateRequest → Rat) :
    l.emitted env weight lo hi [⟨src, size, first⟩, ⟨src, size, second⟩] =
      weight ⟨src, size, first⟩ + weight ⟨src, size, second⟩ := by
  have hnext := allow_of_planes env (l := { l with
    planeObj := (l.planeObj.allowN first 1).2, planeByt := (l.planeByt.allowN first size).2 })
    henabled hfree hobj' hbyt' src
  simp only [BEEFLimiter.emitted, allow_of_planes env henabled hfree hobj hbyt, hnext, hfirst,
    hsecond, and_self, ↓reduceIte, add_zero]

def planeOnly (objects bytes : Rat) : BEEFRateConfig :=
  ⟨0, 0, 0, objects, bytes, 0⟩

/-- Both of two objects a second apart are admitted, whatever their size. -/
theorem emitted_secondApart (hobjects : 0 < objects) (bytes : Rat) (weight : RateRequest → Rat)
    (src : NetAddr) (size : Nat) :
    (newBEEFLimiter (planeOnly objects bytes)).emitted env weight 1 (1 + 1)
        (secondApart src size) =
      weight ⟨src, size, 1000000000⟩ + weight ⟨src, size, 2000000000⟩ := by
  have hgives : ∀ perSec n, ((newBucket perSec perSec).allowN 1000000000 n).1 = true :=
    fun perSec n => (newBucket_budget perSec).gives_of_full (newBucket_level perSec _).2 n
  have hagain : ∀ perSec n, 0 ≤ n →
      (((newBucket perSec perSec).allowN 1000000000 n).2.allowN 2000000000 n).1 = true :=
    fun perSec n hn => (newBucket_budget perSec).gives_again (newBucket_level perSec 0).1
      (by decide) (by decide) hn n
  apply emitted_two
  · simp only [BEEFLimiter.enabled, newBEEFLimiter, planeOnly, hobjects, decide_true, Bool.or_true,
      Bool.true_or]
  · exact ⟨le_refl 0, le_refl 0⟩
  · exact hgives _ _
  · exact hgives _ _
  · exact hagain _ _ zero_le_one
  · exact hagain _ _ (Nat.cast_nonneg _)
  · norm_num [seconds]
  · norm_num [seconds]

/-- The plane's budgets bound what a door emits if and only if no object asks for more
than a bucket holds: the object rate is one at least, and the byte rate a whole object. -/
theorem boundsDoor_iff (hobjects : 0 < objects) (hbytes : 0 < bytes) :
    BoundsDoor env objects bytes size ↔ 1 ≤ objects ∧ (size : Rat) ≤ bytes := by
  constructor
  · intro hbounds
    have hsizes : ∀ req ∈ secondApart (.udp none 0 "") size, req.size ≤ size := by
      intro req hreq
      rcases List.mem_pair.mp hreq with rfl | rfl <;> exact le_refl size
    have hsorted : ((secondApart (.udp none 0 "") size).map RateRequest.now).Pairwise (· ≤ ·) := by
      simp only [secondApart, List.map_cons, List.map_nil, List.pairwise_pair]
      norm_num
    obtain ⟨hcount, htotal⟩ := hbounds (planeOnly objects bytes) rfl rfl
      (secondApart (.udp none 0 "") size) hsorted hsizes 1 1 zero_le_one
    rw [emitted_secondApart hobjects] at hcount htotal
    constructor
    · by_contra hsmall
      rw [max_eq_right (not_le.mp hsmall).le] at hcount
      linarith
    · by_contra hlarge
      rw [max_eq_right (not_le.mp hlarge).le] at htotal
      linarith
  · rintro ⟨hone, hfits⟩ cfg rfl rfl reqs hsorted hsizes start span hspan
    have henabled : (newBEEFLimiter cfg).enabled = true := by
      simp only [BEEFLimiter.enabled, newBEEFLimiter, hobjects, decide_true, Bool.or_true,
        Bool.true_or]
    have hwindow : start ≤ start + span := le_add_of_nonneg_right hspan
    have hlength : start + span - start = span := add_sub_cancel_left start span
    constructor
    · have hcount := objectMeter_meters.emitted_le env hobjects henabled
        (newBucket_budget _) (newBucket_level _ 0).1 hsorted (fun _ _ => hone) hwindow
      rw [hlength] at hcount
      rw [max_eq_left hone]
      exact hcount.trans_eq (add_comm _ _)
    · have htotal := byteMeter_meters.emitted_le env hbytes henabled
        (newBucket_budget _) (newBucket_level _ 0).1 hsorted
        (fun req hreq => (Nat.cast_le.mpr (hsizes req hreq)).trans hfits) hwindow
      rw [hlength] at htotal
      rw [max_eq_left hfits]
      exact htotal.trans_eq (add_comm _ _)

end Door

theorem boundsDoor_iff_sample : BoundsDoor Reference.env 10 100000 5000 :=
  (boundsDoor_iff (by norm_num) (by norm_num)).mpr ⟨by norm_num, by norm_num⟩

/-- At half an object a second two are admitted within one, and at a thousand bytes a
second so are two of five thousand. -/
theorem door_exceeds :
    (1 / 2 : Rat) * 1 + max (1 / 2) 1 <
        (newBEEFLimiter (planeOnly (1 / 2) 1000000)).emitted Reference.env (fun _ => 1) 1 (1 + 1)
          (secondApart (Reference.source 1) 100) ∧
      (1000 : Rat) * 1 + max 1000 5000 <
        (newBEEFLimiter (planeOnly 10 1000)).emitted Reference.env (fun req => req.size) 1 (1 + 1)
          (secondApart (Reference.source 1) 5000) := by
  rw [emitted_secondApart (by norm_num), emitted_secondApart (by norm_num)]
  norm_num

end ShardProxy
