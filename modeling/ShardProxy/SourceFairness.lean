/-
Sources over their own budget.  A request the source tier refuses is charged to its
source alone, and all it can do there is leave less.  Take the refused requests of
some sources away, and those sources hold as much as before at least, the others and
the plane exactly as much; so what is left of the sequence is decided as it was.
-/
import ShardProxy.PlaneBudget
import ShardProxy.RateCharges

namespace ShardProxy

open ByteField TokenBucket

/-- The time of a bucket: when it was last asked, and that it is full until then. -/
structure Bucket.Clocked (now : Time) (b : Bucket) : Prop where
  last_le : b.last ≤ now
  fresh : b.last = 0 → b.tokens = b.burst

/-- From some instant on, one bucket holds as much as another at least. -/
def Bucket.Covers (since : Time) (b other : Bucket) : Prop :=
  ∀ now, since ≤ now → b.level now ≤ other.level now

section Buckets

variable {b other : Bucket} {perSec : Rat} {since now later : Time} {n : Rat}

theorem Bucket.Budget.level_mono (hbudget : b.Budget perSec) (hother : other.Budget perSec)
    (hlast : b.last = other.last) (htokens : b.tokens ≤ other.tokens) (now : Time) :
    b.level now ≤ other.level now := by
  have hburst : b.burst = other.burst := hbudget.burst.trans hother.burst.symm
  have hrate : b.rate = other.rate := hbudget.rate.trans hother.rate.symm
  rw [Bucket.level, Bucket.level]
  by_cases hunset : b.last = 0
  · rw [refill_unset hunset, refill_unset (hlast.symm.trans hunset)]
    exact htokens
  · have hset : other.last ≠ 0 := fun hzero => hunset (hlast.trans hzero)
    rcases Nat.lt_or_ge b.last now with hlater | hstale
    · rw [refill_later hunset hlater, refill_later hset (hlast ▸ hlater), hburst, hrate, hlast]
      exact fill_mono htokens (le_refl _)
    · rw [refill_stale hunset hstale, refill_stale hset (hlast ▸ hstale)]
      exact htokens

/-- Looking at a bucket in between does not put more into it. -/
theorem Bucket.Budget.level_refill_le (hbudget : b.Budget perSec) (hclocked : b.Clocked now)
    (hnow : now ≠ 0) (hlater : now ≤ later) :
    (b.refill now).level later ≤ b.level later := by
  have hburst : (b.refill now).burst = b.burst := (b.refill_make now).2
  have hcap : (b.refill now).level later ≤ b.burst :=
    hburst ▸ ((hbudget.refill now).le_level later).2
  by_cases hunset : b.last = 0
  · -- A bucket that was never asked is full.
    have hfull : b.burst ≤ b.level later := hclocked.fresh hunset ▸ (hbudget.le_level later).1
    exact hcap.trans hfull
  · rcases Nat.lt_or_ge later (b.last + 1000000000) with hsoon | hsecond
    · rcases Nat.lt_or_eq_of_le hclocked.last_le with hfirst | hsame
      · rcases Nat.lt_or_eq_of_le hlater with hsecond | hagain
        · have hsplit := elapsedSeconds_add hfirst.le hsecond.le hsoon
          have hgain : 0 ≤ elapsedSeconds later now * b.rate :=
            mul_nonneg (elapsedSeconds_pos hsecond).le (hbudget.rate ▸ le_max_right _ _)
          rw [Bucket.level, Bucket.level, refill_later hunset hfirst, refill_later hnow hsecond,
            refill_later hunset (hfirst.trans hsecond), hsplit, add_mul]
          exact (fill_fill _ _ _ hgain).le
        · rw [← hagain]
          exact (b.level_refilled now (b.refill now).tokens).le
      · rw [refill_stale hunset (Nat.le_of_eq hsame.symm)]
    · rw [hbudget.level_of_second hunset hsecond]
      exact hcap

theorem Bucket.Covers.mono (hcovers : b.Covers since other) (hlater : since ≤ now) :
    b.Covers now other :=
  fun _ hnow => hcovers _ (hlater.trans hnow)

theorem Bucket.Budget.allowN_last (hbudget : b.Budget perSec) (hpos : 0 < perSec)
    (hclocked : b.Clocked now) (n : Rat) : (b.allowN now n).2.last = now := by
  rw [hbudget.allowN_eq hpos]
  split_ifs <;> exact Bucket.refill_last hclocked.last_le

theorem Bucket.Clocked.mono (hclocked : b.Clocked since) (hlater : since ≤ now) :
    b.Clocked now :=
  ⟨hclocked.last_le.trans hlater, hclocked.fresh⟩

theorem Bucket.Budget.allowN_clocked (hbudget : b.Budget perSec) (hclocked : b.Clocked now)
    (hnow : now ≠ 0) (n : Rat) : (b.allowN now n).2.Clocked now := by
  rcases le_or_gt perSec 0 with hnone | hpos
  · rw [hbudget.allowN_unlimited hnone]
    exact hclocked
  · have hlast := hbudget.allowN_last hpos hclocked n
    exact ⟨hlast.le, fun hunset => absurd (hlast.symm.trans hunset) hnow⟩

/-- Being asked takes from a bucket, or nothing. -/
theorem Bucket.Budget.covers_allowN (hbudget : b.Budget perSec) (hclocked : b.Clocked now)
    (hnow : now ≠ 0) (hn : 0 ≤ n) : (b.allowN now n).2.Covers now b := by
  intro later hlater
  rcases le_or_gt perSec 0 with hnone | hpos
  · rw [hbudget.allowN_unlimited hnone]
  · have hless : (b.allowN now n).2.tokens ≤ (b.refill now).tokens := by
      have hcost : 0 ≤ min n b.burst := le_min hn (hbudget.burst ▸ le_max_right _ _)
      rw [hbudget.allowN_eq hpos]
      split_ifs
      · exact le_refl _
      · exact sub_le_self _ hcost
    have hlast : (b.allowN now n).2.last = (b.refill now).last :=
      (hbudget.allowN_last hpos hclocked n).trans (Bucket.refill_last hclocked.last_le).symm
    have hasked := hbudget.allowN now hn
    exact (hasked.level_mono (hbudget.refill now) hlast hless later).trans
      (hbudget.level_refill_le hclocked hnow hlater)

theorem Bucket.Covers.trans {third : Bucket} (hfirst : b.Covers now other)
    (hsecond : other.Covers now third) : b.Covers now third :=
  fun later hlater => (hfirst later hlater).trans (hsecond later hlater)

/-- What one bucket gives, one that holds more gives too, and still holds more. -/
theorem Bucket.Covers.allowN (hcovers : b.Covers now other) (hbudget : b.Budget perSec)
    (hother : other.Budget perSec) (hclocked : b.Clocked now) (hclocked' : other.Clocked now)
    (hn : 0 ≤ n) (hgiven : (b.allowN now n).1 = true) :
    (other.allowN now n).1 = true ∧ (b.allowN now n).2.Covers now (other.allowN now n).2 := by
  rcases le_or_gt perSec 0 with hnone | hpos
  · rw [hbudget.allowN_unlimited hnone, hother.allowN_unlimited hnone]
    exact ⟨rfl, hcovers⟩
  · have hburst : other.burst = b.burst := hother.burst.trans hbudget.burst.symm
    have hlevel := hcovers now (le_refl now)
    have hasked := hbudget.allowN now hn
    have hasked' := hother.allowN now hn
    have hlast : (b.allowN now n).2.last = (other.allowN now n).2.last :=
      (hbudget.allowN_last hpos hclocked n).trans (hother.allowN_last hpos hclocked' n).symm
    have henough : ¬ b.level now < min n b.burst := by
      intro hshort
      rw [hbudget.allowN_eq hpos, if_pos hshort] at hgiven
      cases hgiven
    have henough' : ¬ other.level now < min n other.burst := by
      rw [hburst]
      exact fun hshort => henough (hlevel.trans_lt hshort)
    refine ⟨by rw [hother.allowN_eq hpos, if_neg henough'], ?_⟩
    intro later _
    apply hasked.level_mono hasked' hlast
    rw [hbudget.allowN_eq hpos, hother.allowN_eq hpos, if_neg henough, if_neg henough', hburst]
    exact sub_le_sub_right hlevel _

end Buckets

/-- An object's buckets at one tier: for objects, and for bytes. -/
@[ext]
structure Tier where
  obj : Bucket
  byt : Bucket

/-- Charge an object, the bytes only if the first bucket gave. -/
def Tier.charge (tier : Tier) (n : Nat) (now : Time) : Bool × Tier :=
  if (tier.obj.allowN now 1).1 then
    ((tier.byt.allowN now n).1, ⟨(tier.obj.allowN now 1).2, (tier.byt.allowN now n).2⟩)
  else (false, ⟨(tier.obj.allowN now 1).2, tier.byt⟩)

/-- Two buckets of given rates, as old as an instant. -/
structure Tier.Kept (objects bytes : Rat) (now : Time) (tier : Tier) : Prop where
  obj : tier.obj.Budget objects
  byt : tier.byt.Budget bytes
  objClock : tier.obj.Clocked now
  bytClock : tier.byt.Clocked now

structure Tier.Covers (since : Time) (tier other : Tier) : Prop where
  obj : tier.obj.Covers since other.obj
  byt : tier.byt.Covers since other.byt

section Tiers

variable {tier other : Tier} {objects bytes : Rat} {since now : Time}

theorem Tier.charge_of_given (hgiven : (tier.obj.allowN now 1).1 = true) (n : Nat) :
    tier.charge n now =
      ((tier.byt.allowN now n).1, ⟨(tier.obj.allowN now 1).2, (tier.byt.allowN now n).2⟩) :=
  if_pos hgiven

theorem Tier.Kept.mono (hkept : tier.Kept objects bytes since) (hlater : since ≤ now) :
    tier.Kept objects bytes now :=
  ⟨hkept.obj, hkept.byt, hkept.objClock.mono hlater, hkept.bytClock.mono hlater⟩

theorem Tier.Covers.mono (hcovers : tier.Covers since other) (hlater : since ≤ now) :
    tier.Covers now other :=
  ⟨hcovers.obj.mono hlater, hcovers.byt.mono hlater⟩

theorem Tier.Kept.charge (hkept : tier.Kept objects bytes now) (hnow : now ≠ 0) (n : Nat) :
    (tier.charge n now).2.Kept objects bytes now := by
  have hobj := hkept.obj.allowN now zero_le_one
  have hobjClock := hkept.obj.allowN_clocked hkept.objClock hnow 1
  rw [Tier.charge]
  split_ifs
  · exact ⟨hobj, hkept.byt.allowN now (Nat.cast_nonneg n), hobjClock,
      hkept.byt.allowN_clocked hkept.bytClock hnow n⟩
  · exact ⟨hobj, hkept.byt, hobjClock, hkept.bytClock⟩

/-- A tier left alone holds as much as one that is charged. -/
theorem Tier.Covers.of_charge (hcovers : tier.Covers now other)
    (hkept : tier.Kept objects bytes now) (hnow : now ≠ 0) (n : Nat) :
    (tier.charge n now).2.Covers now other := by
  have hobj := (hkept.obj.covers_allowN hkept.objClock hnow zero_le_one).trans hcovers.obj
  rw [Tier.charge]
  split_ifs
  · exact ⟨hobj, (hkept.byt.covers_allowN hkept.bytClock hnow (Nat.cast_nonneg n)).trans
      hcovers.byt⟩
  · exact ⟨hobj, hcovers.byt⟩

/-- What one tier admits, one that holds more admits. -/
theorem Tier.Covers.charge (hcovers : tier.Covers now other)
    (hkept : tier.Kept objects bytes now) (hother : other.Kept objects bytes now) {n : Nat}
    (hgiven : (tier.charge n now).1 = true) :
    (other.charge n now).1 = true ∧
      (tier.charge n now).2.Covers now (other.charge n now).2 := by
  have hobjGiven : (tier.obj.allowN now 1).1 = true := by
    by_contra hrefused
    rw [Tier.charge, if_neg hrefused] at hgiven
    cases hgiven
  rw [Tier.charge_of_given hobjGiven] at hgiven ⊢
  obtain ⟨hobj, hobjCovers⟩ := hcovers.obj.allowN hkept.obj hother.obj hkept.objClock
    hother.objClock zero_le_one hobjGiven
  obtain ⟨hbyt, hbytCovers⟩ := hcovers.byt.allowN hkept.byt hother.byt hkept.bytClock
    hother.bytClock (Nat.cast_nonneg n) hgiven
  rw [Tier.charge_of_given hobj]
  exact ⟨hbyt, hobjCovers, hbytCovers⟩

end Tiers

/-- A door that has room for every source: a tier for each, and the plane's. -/
@[ext]
structure Door where
  sources : String → Tier
  plane : Tier

/-- Charge an object to its source and, if that admits it, to the plane. -/
def Door.ask (d : Door) (key : String) (n : Nat) (now : Time) : RateDecision × Door :=
  let charged := (d.sources key).charge n now
  if charged.1 then
    (if (d.plane.charge n now).1 then .allow else .denyPlane,
      ⟨Function.update d.sources key charged.2, (d.plane.charge n now).2⟩)
  else (.denySource, { d with sources := Function.update d.sources key charged.2 })

/-- What the door says to a sequence of objects, given the key of each source. -/
def Door.decisions (keyOf : NetAddr → String) : Door → List RateRequest → List RateDecision
  | _, [] => []
  | d, req :: reqs =>
      let asked := d.ask (keyOf req.src) req.size req.now
      asked.1 :: Door.decisions keyOf asked.2 reqs

/-- What is left of a sequence and its decisions without the requests of some sources
that their own budget refused. -/
def withoutRefused (keyOf : NetAddr → String) (deleted : String → Bool)
    (reqs : List RateRequest) (decisions : List RateDecision) :
    List (RateRequest × RateDecision) :=
  (reqs.zip decisions).filter fun entry =>
    !(deleted (keyOf entry.1.src) && decide (entry.2 = .denySource))

/-- One door has not seen what another was asked beyond its sources' budgets. -/
structure Door.Spared (deleted : String → Bool) (objects bytes : Rat) (now : Time)
    (d spared : Door) : Prop where
  plane : spared.plane = d.plane
  same : ∀ key, deleted key = false → spared.sources key = d.sources key
  covers : ∀ key, deleted key = true → (d.sources key).Covers now (spared.sources key)
  kept : ∀ key, (d.sources key).Kept objects bytes now
  kept_spared : ∀ key, (spared.sources key).Kept objects bytes now

section Doors

variable {deleted : String → Bool} {objects bytes : Rat} {since now : Time} {d spared : Door}
variable {keyOf : NetAddr → String} {key : String} {n : Nat}

theorem Door.Spared.mono (hspared : d.Spared deleted objects bytes since spared)
    (hlater : since ≤ now) : d.Spared deleted objects bytes now spared :=
  ⟨hspared.plane, hspared.same, fun key hdeleted => (hspared.covers key hdeleted).mono hlater,
    fun key => (hspared.kept key).mono hlater, fun key => (hspared.kept_spared key).mono hlater⟩

theorem Door.ask_sources (d : Door) (key : String) (n : Nat) (now : Time) :
    (d.ask key n now).2.sources =
      Function.update d.sources key ((d.sources key).charge n now).2 := by
  rw [Door.ask]
  split_ifs <;> rfl

/-- A door refuses for the source if and only if the source's tier does. -/
theorem Door.ask_denySource_iff :
    (d.ask key n now).1 = .denySource ↔ ((d.sources key).charge n now).1 = false := by
  rw [Door.ask]
  cases hcharged : ((d.sources key).charge n now).1 with
  | false => simp only [Bool.false_eq_true, ↓reduceIte]
  | true =>
      cases (d.plane.charge n now).1 <;> simp

theorem Door.ask_plane (d : Door) (key : String) (n : Nat) (now : Time) :
    (d.ask key n now).2.plane =
      if ((d.sources key).charge n now).1 then (d.plane.charge n now).2 else d.plane := by
  rw [Door.ask]
  split_ifs <;> rfl

theorem Door.ask_kept (hkept : ∀ key, (d.sources key).Kept objects bytes now) (hnow : now ≠ 0)
    (key : String) (n : Nat) (other : String) :
    ((d.ask key n now).2.sources other).Kept objects bytes now := by
  rw [Door.ask_sources]
  by_cases hother : other = key
  · subst hother
    rw [Function.update_self]
    exact (hkept other).charge hnow n
  · rw [Function.update_of_ne hother]
    exact hkept other

/-- A request that is refused for its source, and deleted, leaves the other door spared. -/
theorem Door.Spared.refused (hspared : d.Spared deleted objects bytes now spared) (hnow : now ≠ 0)
    (hdeleted : deleted key = true) (hrefused : (d.ask key n now).1 = .denySource) :
    (d.ask key n now).2.Spared deleted objects bytes now spared := by
  refine ⟨?_, ?_, ?_, Door.ask_kept hspared.kept hnow key n, hspared.kept_spared⟩
  · rw [Door.ask_plane, Door.ask_denySource_iff.mp hrefused, hspared.plane]
    rfl
  · intro other hkeep
    have hother : other ≠ key := by
      rintro rfl
      rw [hdeleted] at hkeep
      cases hkeep
    rw [Door.ask_sources, Function.update_of_ne hother]
    exact hspared.same other hkeep
  · intro other hgone
    rw [Door.ask_sources]
    by_cases hother : other = key
    · subst hother
      rw [Function.update_self]
      exact (hspared.covers other hgone).of_charge (hspared.kept other) hnow n
    · rw [Function.update_of_ne hother]
      exact hspared.covers other hgone

/-- A request that stays is decided the same way. -/
theorem Door.Spared.kept_request (hspared : d.Spared deleted objects bytes now spared)
    (hnow : now ≠ 0)
    (hstays : ¬ (deleted key = true ∧ (d.ask key n now).1 = .denySource)) :
    (spared.ask key n now).1 = (d.ask key n now).1 ∧
      (d.ask key n now).2.Spared deleted objects bytes now (spared.ask key n now).2 := by
  have hsource : ((spared.sources key).charge n now).1 = ((d.sources key).charge n now).1 ∧
      (deleted key = true → ((d.sources key).charge n now).2.Covers now
        ((spared.sources key).charge n now).2) := by
    cases hdeleted : deleted key with
    | false => exact ⟨by rw [hspared.same key hdeleted], nofun⟩
    | true =>
        have hgiven : ((d.sources key).charge n now).1 = true := by
          rw [← Bool.not_eq_false]
          exact fun hrefused => hstays ⟨hdeleted, Door.ask_denySource_iff.mpr hrefused⟩
        obtain ⟨hadmits, hcovers⟩ := (hspared.covers key hdeleted).charge (hspared.kept key)
          (hspared.kept_spared key) hgiven
        exact ⟨hadmits.trans hgiven.symm, fun _ => hcovers⟩
  refine ⟨?_, ?_, ?_, ?_, Door.ask_kept hspared.kept hnow key n,
    Door.ask_kept hspared.kept_spared hnow key n⟩
  · rw [Door.ask, Door.ask, hspared.plane, hsource.1]
    split_ifs <;> rfl
  · rw [Door.ask_plane, Door.ask_plane, hspared.plane, hsource.1]
  · intro other hkeep
    rw [Door.ask_sources, Door.ask_sources]
    by_cases hother : other = key
    · subst hother
      rw [Function.update_self, Function.update_self, hspared.same other hkeep]
    · rw [Function.update_of_ne hother, Function.update_of_ne hother, hspared.same other hkeep]
  · intro other hgone
    rw [Door.ask_sources, Door.ask_sources]
    by_cases hother : other = key
    · subst hother
      rw [Function.update_self, Function.update_self]
      exact hsource.2 hgone
    · rw [Function.update_of_ne hother, Function.update_of_ne hother]
      exact hspared.covers other hgone

/-- What is left of a sequence is decided as it was. -/
theorem Door.Spared.decisions {reqs : List RateRequest}
    (hspared : d.Spared deleted objects bytes now spared)
    (hsorted : reqs.Pairwise fun req later => req.now ≤ later.now)
    (hset : ∀ req ∈ reqs, req.now ≠ 0) (hlater : ∀ req ∈ reqs, now ≤ req.now) :
    spared.decisions keyOf
        ((withoutRefused keyOf deleted reqs (d.decisions keyOf reqs)).map Prod.fst) =
      (withoutRefused keyOf deleted reqs (d.decisions keyOf reqs)).map Prod.snd := by
  induction reqs generalizing d spared now with
  | nil => rfl
  | cons req reqs ih =>
      obtain ⟨hfirst, hrest⟩ := List.pairwise_cons.mp hsorted
      obtain ⟨hnow, hsets⟩ := List.forall_mem_cons.mp hset
      have hhere := hspared.mono (hlater req List.mem_cons_self)
      rw [Door.decisions, withoutRefused, List.zip_cons_cons]
      by_cases hgone : deleted (keyOf req.src) = true ∧
          (d.ask (keyOf req.src) req.size req.now).1 = .denySource
      · rw [List.filter_cons_of_neg (by simp [hgone])]
        exact ih (hhere.refused hnow hgone.1 hgone.2) hrest hsets hfirst
      · obtain ⟨hsame, hnext⟩ := hhere.kept_request hnow hgone
        rw [List.filter_cons_of_pos (by simpa [imp_iff_not_or] using hgone), List.map_cons,
          List.map_cons, Door.decisions, hsame]
        exact congrArg _ (ih hnext hrest hsets hfirst)

end Doors

def SrcBuckets.tier (sb : SrcBuckets) : Tier :=
  ⟨sb.obj, sb.byt⟩

/-- A door's buckets, whether tracked or not. -/
def BEEFLimiter.door (l : BEEFLimiter) : Door where
  sources key := (l.sourceBuckets key).tier
  plane := ⟨l.planeObj, l.planeByt⟩

/-- The table holds sources of a set it has room for, each once. -/
structure BEEFLimiter.Roomy (keys : Finset String) (l : BEEFLimiter) : Prop where
  room : (keys.card : Int) ≤ l.cfg.maxTrackedSources
  nodup : (l.srcs.map Prod.fst).Nodup
  subset : ∀ key ∈ l.srcs.map Prod.fst, key ∈ keys

/-- What a door says to a sequence of objects. -/
def BEEFLimiter.decisions (env : Env) : BEEFLimiter → List RateRequest → List RateDecision
  | _, [] => []
  | l, req :: reqs =>
      let asked := l.allow env (some req.src) req.size req.now
      asked.1 :: BEEFLimiter.decisions env asked.2 reqs

section Refinement

variable {env : Env} {l : BEEFLimiter} {keys : Finset String} {key other : String}
variable {src : NetAddr} {n : Nat} {now : Time}

theorem BEEFLimiter.Roomy.track (hroomy : l.Roomy keys) (hkey : key ∈ keys) :
    (l.track env key).2 = l := by
  rw [BEEFLimiter.track]
  cases hlookup : l.srcs.lookup key with
  | some sb => rfl
  | none =>
      have hnew : key ∉ l.srcs.map Prod.fst := by
        rw [← AssocList.isSome_lookup_iff, hlookup]
        exact Bool.false_ne_true
      have hshort : (l.srcs.map Prod.fst).length < keys.card := by
        have hsub : insert key (l.srcs.map Prod.fst).toFinset ⊆ keys := by
          intro other hother
          rcases Finset.mem_insert.mp hother with rfl | hmem
          · exact hkey
          · exact hroomy.subset other (List.mem_toFinset.mp hmem)
        have hcard := Finset.card_le_card hsub
        rw [Finset.card_insert_of_notMem (fun hmem => hnew (List.mem_toFinset.mp hmem)),
          List.toFinset_card_of_nodup hroomy.nodup] at hcard
        exact hcard
      rw [List.length_map] at hshort
      have hfits : ¬ l.cfg.maxTrackedSources ≤ (l.srcs.length : Int) := by
        have := hroomy.room
        omega
      simp only [hfits, ↓reduceIte]

theorem BEEFLimiter.Roomy.putSource (hroomy : l.Roomy keys) (hkey : key ∈ keys)
    (sb : SrcBuckets) : (l.putSource key sb).Roomy keys := by
  obtain ⟨hroom, hnodup, hsubset⟩ := hroomy
  have hcfg := (l.putSource_rest key sb).1
  have hkeys := l.putSource_keys key sb
  by_cases hthere : key ∈ l.srcs.map Prod.fst
  · rw [if_pos hthere] at hkeys
    exact ⟨hcfg ▸ hroom, hkeys ▸ hnodup, hkeys ▸ hsubset⟩
  · rw [if_neg hthere] at hkeys
    refine ⟨hcfg ▸ hroom, ?_, ?_⟩
    · rw [hkeys]
      exact hnodup.append (List.nodup_singleton _) (List.disjoint_singleton.mpr hthere)
    · intro other hother
      rw [hkeys, List.mem_append] at hother
      rcases hother with hold | hnew
      · exact hsubset other hold
      · rw [List.mem_singleton.mp hnew]
        exact hkey

theorem BEEFLimiter.Roomy.allowSource (hroomy : l.Roomy keys) (hkey : l.keyOf env src ∈ keys)
    (n : Nat) (now : Time) : (l.allowSource env src n now).2.Roomy keys := by
  by_cases hfree : l.SourcesFree
  · rw [BEEFLimiter.allowSource_free hfree]
    exact hroomy
  · rw [BEEFLimiter.allowSource_eq hfree, hroomy.track hkey]
    exact hroomy.putSource hkey _

/-- A request touches the table at the source tier only. -/
theorem BEEFLimiter.allow_srcs (henabled : l.enabled = true) (env : Env) (src : NetAddr) (n : Nat)
    (now : Time) :
    (l.allow env (some src) n now).2.srcs = (l.allowSource env src n now).2.srcs ∧
      (l.allow env (some src) n now).2.cfg = (l.allowSource env src n now).2.cfg := by
  have hasked := BEEFLimiter.asked env henabled src n now
  generalize l.allow env (some src) n now = out at hasked
  cases hasked with
  | _ => exact ⟨rfl, rfl⟩

theorem BEEFLimiter.allow_disabled (hoff : l.enabled = false) :
    l.allow env (some src) n now = (.allow, l) := by
  simp only [BEEFLimiter.allow, hoff, Bool.not_false, ↓reduceIte]

theorem BEEFLimiter.Roomy.allow (hroomy : l.Roomy keys) (hkey : l.keyOf env src ∈ keys)
    (n : Nat) (now : Time) : (l.allow env (some src) n now).2.Roomy keys := by
  cases henabled : l.enabled with
  | false =>
      rw [BEEFLimiter.allow_disabled henabled]
      exact hroomy
  | true =>
      obtain ⟨hsrcs, hcfg⟩ := BEEFLimiter.allow_srcs henabled env src n now
      obtain ⟨hroom, hnodup, hsubset⟩ := hroomy.allowSource hkey n now
      exact ⟨hcfg ▸ hroom, hsrcs ▸ hnodup, hsrcs ▸ hsubset⟩

/-- The two buckets of a source without a rate admit everything, and stay as they are. -/
theorem Tier.charge_unlimited {tier : Tier} {objects bytes : Rat} (hobj : tier.obj.Budget objects)
    (hbyt : tier.byt.Budget bytes) (hobjects : objects ≤ 0) (hbytes : bytes ≤ 0) (n : Nat)
    (now : Time) : tier.charge n now = (true, tier) := by
  rw [Tier.charge, hobj.allowN_unlimited hobjects, hbyt.allowN_unlimited hbytes]
  rfl

theorem SrcBuckets.charge_tier (sb : SrcBuckets) (n : Nat) (now : Time) :
    sb.tier.charge n now = ((sb.charge n now).1, (sb.charge n now).2.tier) := by
  rw [Tier.charge, SrcBuckets.charge, SrcBuckets.tier]
  cases (sb.obj.allowN now 1).1 with
  | false => rfl
  | true => rfl

/-- The source tier of a limiter with room is the door's. -/
theorem BEEFLimiter.Sound.door_allowSource (hsound : l.Sound) (hroomy : l.Roomy keys)
    (hkey : l.keyOf env src ∈ keys) (n : Nat) (now : Time) :
    (l.allowSource env src n now).1 =
        ((l.door.sources (l.keyOf env src)).charge n now).1 ∧
      (l.allowSource env src n now).2.door.sources =
        Function.update l.door.sources (l.keyOf env src)
          ((l.door.sources (l.keyOf env src)).charge n now).2 := by
  by_cases hfree : l.SourcesFree
  · obtain ⟨hobj, hbyt⟩ := hsound.sources (l.keyOf env src)
    have hcharge : (l.door.sources (l.keyOf env src)).charge n now = (true, _) :=
      Tier.charge_unlimited hobj hbyt hfree.1 hfree.2 n now
    rw [BEEFLimiter.allowSource_free hfree, hcharge, Function.update_eq_self]
    exact ⟨rfl, rfl⟩
  · have hcharge := SrcBuckets.charge_tier (l.sourceBuckets (l.keyOf env src)) n now
    simp only [BEEFLimiter.allowSource_eq hfree, hroomy.track hkey, BEEFLimiter.track_fst,
      BEEFLimiter.door, hcharge, true_and]
    funext other
    by_cases hother : other = l.keyOf env src
    · subst hother
      have hself := BEEFLimiter.lookup_putSource_self l (l.keyOf env src)
        ((l.sourceBuckets (l.keyOf env src)).charge n now).2
      rw [Function.update_self]
      rw [BEEFLimiter.sourceBuckets_of_lookup hself]
    · rw [Function.update_of_ne hother]
      rw [BEEFLimiter.sourceBuckets, BEEFLimiter.lookup_putSource_ne hother,
        (l.putSource_rest _ _).1]
      rfl

/-- A limiter with room decides as the door does. -/
theorem BEEFLimiter.Sound.door_allow (hsound : l.Sound) (hroomy : l.Roomy keys)
    (hkey : l.keyOf env src ∈ keys) (n : Nat) (now : Time) :
    (l.allow env (some src) n now).1 = (l.door.ask (l.keyOf env src) n now).1 ∧
      (l.allow env (some src) n now).2.door = (l.door.ask (l.keyOf env src) n now).2 := by
  cases henabled : l.enabled with
  | false =>
      obtain ⟨hfree, hobjects, hbytes⟩ := BEEFLimiter.not_enabled henabled
      obtain ⟨hobj, hbyt⟩ := hsound.sources (l.keyOf env src)
      have hcharge : (l.door.sources (l.keyOf env src)).charge n now = (true, _) :=
        Tier.charge_unlimited hobj hbyt hfree.1 hfree.2 n now
      have hplane : l.door.plane.charge n now = (true, _) :=
        Tier.charge_unlimited hsound.planeObj hsound.planeByt hobjects hbytes n now
      rw [BEEFLimiter.allow_disabled henabled, Door.ask, hcharge, hplane, Function.update_eq_self]
      exact ⟨rfl, rfl⟩
  | true =>
      obtain ⟨hgives, hsources⟩ := hsound.door_allowSource hroomy hkey n now
      obtain ⟨-, hobjSame, hbytSame⟩ := l.allowSource_rest env src n now
      have hasked := BEEFLimiter.asked env henabled src n now
      generalize l.allow env (some src) n now = out at hasked
      rw [Door.ask, ← hgives, ← hsources]
      cases hasked with
      | source hrefused =>
          rw [hrefused]
          refine ⟨rfl, ?_⟩
          simp only [BEEFLimiter.door, hobjSame, hbytSame, Bool.false_eq_true, ↓reduceIte]
      | objects hgave hobj =>
          have hplane : l.door.plane.charge n now =
              (false, ⟨(l.planeObj.allowN now 1).2, l.planeByt⟩) :=
            if_neg (fun hgiven => Bool.false_ne_true (hobj.symm.trans hgiven))
          rw [hgave, hplane]
          exact ⟨rfl, rfl⟩
      | bytes hgave hobj hbyt =>
          have hplane : l.door.plane.charge n now = _ := Tier.charge_of_given hobj n
          rw [hgave, hplane]
          refine ⟨(if_neg ?_).symm, rfl⟩
          exact fun hgiven => Bool.false_ne_true (hbyt.symm.trans hgiven)
      | admitted hgave hobj hbyt =>
          have hplane : l.door.plane.charge n now = _ := Tier.charge_of_given hobj n
          rw [hgave, hplane]
          exact ⟨(if_pos hbyt).symm, rfl⟩


/-- A sequence of objects that name sources of the set finds the door's decisions. -/
theorem BEEFLimiter.Sound.door_decisions {reqs : List RateRequest} (hsound : l.Sound)
    (hroomy : l.Roomy keys) (hkeys : ∀ req ∈ reqs, l.keyOf env req.src ∈ keys) :
    l.decisions env reqs = l.door.decisions (l.keyOf env) reqs := by
  induction reqs generalizing l with
  | nil => rfl
  | cons req reqs ih =>
      obtain ⟨hkey, hrest⟩ := List.forall_mem_cons.mp hkeys
      obtain ⟨hsame, hdoor⟩ := hsound.door_allow hroomy hkey req.size req.now
      have hkeyOf : (l.allow env (some req.src) req.size req.now).2.keyOf env = l.keyOf env := by
        funext src
        rw [BEEFLimiter.keyOf, BEEFLimiter.keyOf, BEEFLimiter.allow_cfg]
      have hnext := ih (hsound.allow env (some req.src) req.size req.now)
        (hroomy.allow hkey req.size req.now) (fun req hreq => hkeyOf ▸ hrest req hreq)
      rw [BEEFLimiter.decisions, Door.decisions, hsame, hnext, hkeyOf, hdoor]

end Refinement

/-- What is left of a sequence at a new door, with the decisions, when some sources'
requests that `allow` refused with `denySource` are deleted. -/
def remaining (env : Env) (cfg : BEEFRateConfig) (deleted : String → Bool)
    (reqs : List RateRequest) : List (RateRequest × RateDecision) :=
  withoutRefused ((newBEEFLimiter cfg).keyOf env) deleted reqs
    ((newBEEFLimiter cfg).decisions env reqs)

section NewDoor

variable (env : Env) (cfg : BEEFRateConfig) (deleted : String → Bool) {reqs : List RateRequest}

def sourceKeys (reqs : List RateRequest) : Finset String :=
  (reqs.map fun req => (newBEEFLimiter cfg).keyOf env req.src).toFinset

theorem keyOf_mem_sourceKeys {req : RateRequest} (hreq : req ∈ reqs) :
    (newBEEFLimiter cfg).keyOf env req.src ∈ sourceKeys env cfg reqs :=
  List.mem_toFinset.mpr (List.mem_map_of_mem hreq)

theorem mem_of_mem_remaining {req : RateRequest}
    (hreq : req ∈ (remaining env cfg deleted reqs).map Prod.fst) : req ∈ reqs := by
  obtain ⟨entry, hentry, rfl⟩ := List.mem_map.mp hreq
  exact (List.of_mem_zip (List.mem_of_mem_filter hentry)).1

theorem newBucket_clocked (perSec : Rat) : (newBucket perSec perSec).Clocked 0 := by
  obtain ⟨hlast, hlevel⟩ := newBucket_level perSec 0
  refine ⟨hlast.le, fun _ => ?_⟩
  rw [Bucket.level, Bucket.refill_unset hlast] at hlevel
  exact hlevel

theorem newDoor_spared : (newBEEFLimiter cfg).door.Spared deleted
    (newBEEFLimiter cfg).cfg.sourceObjectsPerSec (newBEEFLimiter cfg).cfg.sourceBytesPerSec 0
    (newBEEFLimiter cfg).door := by
  have hkept : ∀ key, ((newBEEFLimiter cfg).door.sources key).Kept
      (newBEEFLimiter cfg).cfg.sourceObjectsPerSec (newBEEFLimiter cfg).cfg.sourceBytesPerSec 0 :=
    fun key => ⟨newBucket_budget _, newBucket_budget _, newBucket_clocked _, newBucket_clocked _⟩
  exact ⟨rfl, fun _ _ => rfl, fun _ _ => ⟨fun _ _ => le_refl _, fun _ _ => le_refl _⟩, hkept, hkept⟩

theorem newBEEFLimiter_roomy {keys : Finset String}
    (hroom : (keys.card : Int) ≤ (newBEEFLimiter cfg).cfg.maxTrackedSources) :
    (newBEEFLimiter cfg).Roomy keys :=
  ⟨hroom, List.nodup_nil, nofun⟩

/-- With the requests of any sources that their own budget refused deleted, the rest of
a sequence is decided as it was. -/
theorem refused_requests_inert (hsorted : reqs.Pairwise fun req later => req.now ≤ later.now)
    (hset : ∀ req ∈ reqs, req.now ≠ 0)
    (hroom : ((sourceKeys env cfg reqs).card : Int) ≤
      (newBEEFLimiter cfg).cfg.maxTrackedSources) :
    (newBEEFLimiter cfg).decisions env ((remaining env cfg deleted reqs).map Prod.fst) =
      (remaining env cfg deleted reqs).map Prod.snd := by
  have hsound := newBEEFLimiter_sound cfg
  have hroomy := newBEEFLimiter_roomy cfg hroom
  have hall := hsound.door_decisions hroomy fun req hreq => keyOf_mem_sourceKeys env cfg hreq
  have hleft := hsound.door_decisions hroomy fun req hreq =>
    keyOf_mem_sourceKeys env cfg (mem_of_mem_remaining env cfg deleted hreq)
  rw [hleft, remaining, hall]
  exact (newDoor_spared cfg deleted).decisions hsorted hset fun _ _ => Nat.zero_le _

end NewDoor

section Sample

open Reference

/-- One object a second from each address. -/
def perAddress : BEEFRateConfig :=
  ⟨1, 0, 128, 2, 0, 2⟩

/-- Three objects at once from one address, then one from another. -/
def burstThenOther : List RateRequest :=
  [⟨source 1, 100, 1000000000⟩, ⟨source 1, 100, 1000000000⟩, ⟨source 1, 100, 1000000000⟩,
    ⟨source 2, 100, 1000000001⟩]

/-- The two refused ones make no difference to the last. -/
theorem refused_requests_inert_sample :
    (newBEEFLimiter perAddress).decisions Reference.env burstThenOther =
        [.allow, .denySource, .denySource, .allow] ∧
      (newBEEFLimiter perAddress).decisions Reference.env
        ((remaining Reference.env perAddress (fun _ => true) burstThenOther).map Prod.fst) =
          [.allow, .allow] := by
  have hsorted : burstThenOther.Pairwise fun req later => req.now ≤ later.now := by
    decide +kernel
  have hleft := refused_requests_inert Reference.env perAddress (fun _ => true) hsorted
    (by decide +kernel) (by decide +kernel)
  exact ⟨by decide +kernel, hleft.trans (by decide +kernel)⟩

/-- Three objects of one source, the first at the zero time. -/
def fromZeroTime : List RateRequest :=
  [⟨source 1, 100, 0⟩, ⟨source 1, 100, 1⟩, ⟨source 1, 100, 1000000001⟩]

/-- A bucket asked at the zero time still counts as never asked, and its refill starts
at the next request: the refused one starts it in time for the third. -/
theorem zero_time_depends :
    (fromZeroTime.Pairwise fun req later => req.now ≤ later.now) ∧
      ((sourceKeys Reference.env perAddress fromZeroTime).card : Int) ≤
        (newBEEFLimiter perAddress).cfg.maxTrackedSources ∧
      (newBEEFLimiter perAddress).decisions Reference.env fromZeroTime =
        [.allow, .denySource, .allow] ∧
      (newBEEFLimiter perAddress).decisions Reference.env
        ((remaining Reference.env perAddress (fun _ => true) fromZeroTime).map Prod.fst) =
          [.allow, .denySource] := by
  decide +kernel

end Sample

end ShardProxy
