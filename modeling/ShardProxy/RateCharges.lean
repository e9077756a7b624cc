/-
What a request is charged.  A door asks up to four buckets one after the other, the
source's and then the plane's, and each that gives is charged at once; the first
that refuses ends it, and what was given before is not given back.
-/
import ShardProxy.Lib.AssocList
import ShardProxy.RateBudget
import ShardProxy.Reference

namespace ShardProxy

open ByteField TokenBucket

/-- Ask buckets in order, until one refuses; the rest stay as they are. -/
def askAll (now : Time) : List (Bucket × Rat) → Bool × List Bucket
  | [] => (true, [])
  | (b, n) :: rest =>
      if (b.allowN now n).1 then
        ((askAll now rest).1, (b.allowN now n).2 :: (askAll now rest).2)
      else (false, (b.allowN now n).2 :: rest.map Prod.fst)

/-- The first bucket with anything to charge refuses. -/
def FirstRefuses (now : Time) : List (Bucket × Rat) → Prop
  | [] => False
  | (b, n) :: rest => (b.allowN now n).1 = false ∨ min n b.burst = 0 ∧ FirstRefuses now rest

instance (now : Time) : ∀ asks, Decidable (FirstRefuses now asks)
  | [] => isFalse id
  | (_, _) :: rest =>
      have := instDecidableFirstRefuses now rest
      inferInstanceAs (Decidable (_ ∨ _))

section Asking

variable {now : Time} {b : Bucket} {perSec : Rat}

/-- A bucket that gives is charged what is asked, its depth at most; one that refuses,
nothing. -/
theorem Bucket.Budget.level_allowN (hbudget : b.Budget perSec) (now : Time) {n : Rat}
    (hn : 0 ≤ n) :
    (b.allowN now n).2.level now =
      b.level now - if (b.allowN now n).1 then min n b.burst else 0 := by
  rcases le_or_gt perSec 0 with hnone | hpos
  · have hburst : b.burst = 0 := hbudget.burst.trans (max_eq_right hnone)
    rw [hbudget.allowN_unlimited hnone, hburst, min_eq_right hn, ite_self, sub_zero]
  · rw [hbudget.allowN_eq hpos]
    by_cases hrefused : b.level now < min n b.burst
    · have hsame := b.level_refilled now (b.refill now).tokens
      simp only [hrefused, ↓reduceIte, Bool.false_eq_true, sub_zero]
      exact hsame
    · simp only [hrefused, ↓reduceIte]
      exact b.level_refilled now _

/-- Buckets made for some rate, asked for something. -/
def Askable (asks : List (Bucket × Rat)) : Prop :=
  ∀ ask ∈ asks, (∃ perSec, ask.1.Budget perSec) ∧ 0 ≤ ask.2

theorem levels_of_given {asks : List (Bucket × Rat)} (hasks : Askable asks)
    (hgiven : (askAll now asks).1 = true) :
    (askAll now asks).2.map (fun b => b.level now) =
      asks.map fun ask => ask.1.level now - min ask.2 ask.1.burst := by
  induction asks with
  | nil => rfl
  | cons ask rest ih =>
      obtain ⟨b, n⟩ := ask
      obtain ⟨⟨⟨perSec, hbudget⟩, hn⟩, hrest⟩ := List.forall_mem_cons.mp hasks
      cases hgives : (b.allowN now n).1 with
      | false =>
          rw [askAll, hgives] at hgiven
          cases hgiven
      | true =>
          rw [askAll, hgives] at hgiven ⊢
          have hlevel := hbudget.level_allowN now hn
          rw [hgives] at hlevel
          simp only [↓reduceIte] at hgiven hlevel ⊢
          rw [List.map_cons, List.map_cons, hlevel, ih hrest hgiven]

/-- A refusal leaves every level as it was if and only if it comes from the first bucket
with anything to charge. -/
theorem levels_of_refused_iff {asks : List (Bucket × Rat)} (hasks : Askable asks)
    (hrefused : (askAll now asks).1 = false) :
    (askAll now asks).2.map (fun b => b.level now) = asks.map (fun ask => ask.1.level now) ↔
      FirstRefuses now asks := by
  induction asks with
  | nil => cases hrefused
  | cons ask rest ih =>
      obtain ⟨b, n⟩ := ask
      obtain ⟨⟨⟨perSec, hbudget⟩, hn⟩, hrest⟩ := List.forall_mem_cons.mp hasks
      have hlevel := hbudget.level_allowN now hn
      cases hgives : (b.allowN now n).1 with
      | false =>
          rw [hgives] at hlevel
          simp only [Bool.false_eq_true, ↓reduceIte, sub_zero] at hlevel
          simp only [askAll, hgives, Bool.false_eq_true, ↓reduceIte, List.map_cons, List.map_map,
            hlevel, FirstRefuses, true_or, iff_true]
          rfl
      | true =>
          rw [hgives] at hlevel
          simp only [askAll, hgives, ↓reduceIte] at hrefused hlevel ⊢
          rw [FirstRefuses, List.map_cons, List.map_cons, List.cons.injEq, ih hrest hrefused,
            hlevel, sub_eq_self, hgives]
          simp only [Bool.true_eq_false, false_or]

theorem askAll_append (now : Time) (first second : List (Bucket × Rat)) :
    askAll now (first ++ second) =
      if (askAll now first).1 then
        ((askAll now second).1, (askAll now first).2 ++ (askAll now second).2)
      else (false, (askAll now first).2 ++ second.map Prod.fst) := by
  induction first with
  | nil => rfl
  | cons ask rest ih =>
      obtain ⟨b, n⟩ := ask
      rw [List.cons_append, askAll, askAll, ih]
      cases (b.allowN now n).1 with
      | false => simp only [Bool.false_eq_true, ↓reduceIte, List.map_append, List.cons_append]
      | true =>
          cases (askAll now rest).1 with
          | false => rfl
          | true => rfl

end Asking

/-- The buckets a source is charged to: its own, or the ones it would be given. -/
def BEEFLimiter.sourceBuckets (l : BEEFLimiter) (key : String) : SrcBuckets :=
  (l.srcs.lookup key).getD
    ⟨newBucket l.cfg.sourceObjectsPerSec l.cfg.sourceObjectsPerSec,
      newBucket l.cfg.sourceBytesPerSec l.cfg.sourceBytesPerSec, 0⟩

/-- The buckets an object is charged to, in the order they are asked. -/
def BEEFLimiter.buckets (l : BEEFLimiter) (key : String) : List Bucket :=
  [(l.sourceBuckets key).obj, (l.sourceBuckets key).byt, l.planeObj, l.planeByt]

/-- What each of them is asked. -/
def BEEFLimiter.asks (l : BEEFLimiter) (key : String) (n : Nat) : List (Bucket × Rat) :=
  [((l.sourceBuckets key).obj, 1), ((l.sourceBuckets key).byt, (n : Rat))] ++
    [(l.planeObj, 1), (l.planeByt, (n : Rat))]

/-- Every bucket is one made for the configured rate. -/
structure BEEFLimiter.Sound (l : BEEFLimiter) : Prop where
  planeObj : l.planeObj.Budget l.cfg.planeObjectsPerSec
  planeByt : l.planeByt.Budget l.cfg.planeBytesPerSec
  sources : ∀ key, (l.sourceBuckets key).obj.Budget l.cfg.sourceObjectsPerSec ∧
    (l.sourceBuckets key).byt.Budget l.cfg.sourceBytesPerSec

section Table

variable {env : Env} {l : BEEFLimiter} {key other : String} {sb : SrcBuckets}

theorem BEEFLimiter.sourceBuckets_of_lookup (hlookup : l.srcs.lookup key = some sb) :
    l.sourceBuckets key = sb := by
  rw [BEEFLimiter.sourceBuckets, hlookup]
  rfl

variable (env) in
theorem BEEFLimiter.track_fst (l : BEEFLimiter) (key : String) :
    (l.track env key).1 = l.sourceBuckets key := by
  rw [BEEFLimiter.track, BEEFLimiter.sourceBuckets]
  cases hlookup : l.srcs.lookup key with
  | some sb => rfl
  | none =>
      simp only [BEEFLimiter.evictOldest]
      split_ifs <;> rfl

/-- Making room takes entries out and changes none. -/
theorem BEEFLimiter.lookup_track
    (hlookup : (l.track env key).2.srcs.lookup other = some sb) :
    l.srcs.lookup other = some sb := by
  rw [BEEFLimiter.track] at hlookup
  cases htracked : l.srcs.lookup key with
  | some _ =>
      rw [htracked] at hlookup
      exact hlookup
  | none =>
      simp only [htracked, BEEFLimiter.evictOldest] at hlookup
      split_ifs at hlookup with hfull hfound
      · rw [AssocList.lookup_filter_ne] at hlookup
        split_ifs at hlookup
        exact hlookup
      · exact hlookup
      · exact hlookup

theorem BEEFLimiter.lookup_putSource_self (l : BEEFLimiter) (key : String) (sb : SrcBuckets) :
    (l.putSource key sb).srcs.lookup key = some sb := by
  rw [BEEFLimiter.putSource]
  split_ifs with hthere
  · exact AssocList.lookup_overwrite_self sb hthere
  · rw [Option.not_isSome_iff_eq_none] at hthere
    rw [List.lookup_append, hthere, Option.none_or, AssocList.lookup_self]

theorem BEEFLimiter.lookup_putSource_ne (hne : other ≠ key) (l : BEEFLimiter) (sb : SrcBuckets) :
    (l.putSource key sb).srcs.lookup other = l.srcs.lookup other := by
  rw [BEEFLimiter.putSource]
  split_ifs with hthere
  · exact AssocList.lookup_overwrite_ne hne sb l.srcs
  · rw [List.lookup_append, AssocList.lookup_of_ne hne, List.lookup_nil, Option.or_none]

theorem BEEFLimiter.putSource_keys (l : BEEFLimiter) (key : String) (sb : SrcBuckets) :
    (l.putSource key sb).srcs.map Prod.fst =
      if key ∈ l.srcs.map Prod.fst then l.srcs.map Prod.fst
      else l.srcs.map Prod.fst ++ [key] := by
  rw [BEEFLimiter.putSource]
  by_cases hthere : key ∈ l.srcs.map Prod.fst
  · rw [if_pos hthere, if_pos (AssocList.isSome_lookup_iff.mpr hthere)]
    exact AssocList.keys_overwrite key sb l.srcs
  · rw [if_neg hthere, if_neg (fun hsome => hthere (AssocList.isSome_lookup_iff.mp hsome)),
      List.map_append]
    rfl

theorem SrcBuckets.charge_asks (sb : SrcBuckets) (n : Nat) (now : Time) :
    askAll now [(sb.obj, 1), (sb.byt, (n : Rat))] =
      ((sb.charge n now).1, [(sb.charge n now).2.obj, (sb.charge n now).2.byt]) := by
  rw [SrcBuckets.charge]
  cases hobj : (sb.obj.allowN now 1).1 with
  | false => simp only [askAll, hobj, Bool.false_eq_true, ↓reduceIte, List.map_cons, List.map_nil]
  | true =>
      cases hbyt : (sb.byt.allowN now (n : Rat)).1 with
      | false =>
          simp only [askAll, hobj, hbyt, Bool.false_eq_true, ↓reduceIte, List.map_nil]
      | true => simp only [askAll, hobj, hbyt, ↓reduceIte]

/-- What the source tier does to the table. -/
structure BEEFLimiter.SourceAsked (l : BEEFLimiter) (key : String) (n : Nat) (now : Time)
    (out : Bool × BEEFLimiter) : Prop where
  asked : askAll now [((l.sourceBuckets key).obj, 1), ((l.sourceBuckets key).byt, (n : Rat))] =
    (out.1, [(out.2.sourceBuckets key).obj, (out.2.sourceBuckets key).byt])
  others : ∀ other sb, other ≠ key → out.2.srcs.lookup other = some sb →
    l.srcs.lookup other = some sb
  tracked : out.2.srcs.lookup key = none → l.srcs.lookup key = none

variable (env) in
theorem BEEFLimiter.Sound.allowSource (hsound : l.Sound) (src : NetAddr) (n : Nat) (now : Time) :
    l.SourceAsked (l.keyOf env src) n now (l.allowSource env src n now) := by
  by_cases hfree : l.SourcesFree
  · rw [BEEFLimiter.allowSource_free hfree]
    obtain ⟨hobj, hbyt⟩ := hsound.sources (l.keyOf env src)
    refine ⟨?_, fun _ _ _ hlookup => hlookup, fun hnone => hnone⟩
    simp only [askAll, hobj.allowN_unlimited hfree.1, hbyt.allowN_unlimited hfree.2, ↓reduceIte]
  · rw [BEEFLimiter.allowSource_eq hfree, BEEFLimiter.track_fst]
    have hself := BEEFLimiter.lookup_putSource_self (l.track env (l.keyOf env src)).2
      (l.keyOf env src) ((l.sourceBuckets (l.keyOf env src)).charge n now).2
    refine ⟨?_, ?_, ?_⟩
    · rw [SrcBuckets.charge_asks]
      rw [BEEFLimiter.sourceBuckets] at hself ⊢
      rw [BEEFLimiter.sourceBuckets, hself]
      rfl
    · intro other sb hne hlookup
      rw [BEEFLimiter.lookup_putSource_ne hne] at hlookup
      exact BEEFLimiter.lookup_track hlookup
    · intro hnone
      cases hself.symm.trans hnone

theorem SrcBuckets.charge_budget {sb : SrcBuckets} {objects bytes : Rat}
    (hobj : sb.obj.Budget objects) (hbyt : sb.byt.Budget bytes) (n : Nat) (now : Time) :
    (sb.charge n now).2.obj.Budget objects ∧ (sb.charge n now).2.byt.Budget bytes := by
  rw [SrcBuckets.charge]
  split
  · exact ⟨hobj.allowN now zero_le_one, hbyt.allowN now (Nat.cast_nonneg n)⟩
  · exact ⟨hobj.allowN now zero_le_one, hbyt⟩

variable (env) in
theorem BEEFLimiter.Sound.allowSource_sound (hsound : l.Sound) (src : NetAddr) (n : Nat)
    (now : Time) : (l.allowSource env src n now).2.Sound := by
  obtain ⟨hcfg, hobj, hbyt⟩ := l.allowSource_rest env src n now
  refine ⟨?_, ?_, ?_⟩
  · rw [hobj, hcfg]
    exact hsound.planeObj
  · rw [hbyt, hcfg]
    exact hsound.planeByt
  · intro other
    rw [BEEFLimiter.sourceBuckets, hcfg]
    cases hlookup : (l.allowSource env src n now).2.srcs.lookup other with
    | none => exact ⟨newBucket_budget _, newBucket_budget _⟩
    | some sb =>
        -- An entry was there before, or is the source's and has just been charged.
        have hentry : l.srcs.lookup other = some sb ∨
            sb = ((l.sourceBuckets other).charge n now).2 := by
          by_cases hfree : l.SourcesFree
          · rw [BEEFLimiter.allowSource_free hfree] at hlookup
            exact Or.inl hlookup
          · by_cases hkey : other = l.keyOf env src
            · subst hkey
              rw [BEEFLimiter.allowSource_eq hfree, BEEFLimiter.lookup_putSource_self,
                BEEFLimiter.track_fst] at hlookup
              exact Or.inr (Option.some.inj hlookup).symm
            · exact Or.inl ((hsound.allowSource env src n now).others other sb hkey hlookup)
        have hown := hsound.sources other
        rcases hentry with hbefore | hcharged
        · rw [BEEFLimiter.sourceBuckets_of_lookup hbefore] at hown
          exact hown
        · rw [hcharged]
          exact SrcBuckets.charge_budget hown.1 hown.2 n now

end Table

/-- What a request does to the buckets it is charged to, and to the table. -/
structure BEEFLimiter.AllAsked (l : BEEFLimiter) (key : String) (n : Nat) (now : Time)
    (out : RateDecision × BEEFLimiter) : Prop where
  asked : askAll now (l.asks key n) = (decide (out.1 = .allow), out.2.buckets key)
  others : ∀ other sb, other ≠ key → out.2.srcs.lookup other = some sb →
    l.srcs.lookup other = some sb
  tracked : out.2.srcs.lookup key = none → l.srcs.lookup key = none

section Allow

variable {env : Env} {l : BEEFLimiter}

theorem BEEFLimiter.not_enabled (hoff : l.enabled = false) :
    l.SourcesFree ∧ l.cfg.planeObjectsPerSec ≤ 0 ∧ l.cfg.planeBytesPerSec ≤ 0 := by
  simp only [BEEFLimiter.enabled, Bool.or_eq_false_iff, decide_eq_false_iff_not, not_lt] at hoff
  exact ⟨⟨hoff.1.1.1, hoff.1.1.2⟩, hoff.1.2, hoff.2⟩

variable (env) in
theorem BEEFLimiter.Sound.allow_asks (hsound : l.Sound) (src : NetAddr) (n : Nat) (now : Time) :
    l.AllAsked (l.keyOf env src) n now (l.allow env (some src) n now) := by
  cases henabled : l.enabled with
  | false =>
      obtain ⟨hfree, hobjects, hbytes⟩ := BEEFLimiter.not_enabled henabled
      obtain ⟨hobj, hbyt⟩ := hsound.sources (l.keyOf env src)
      have hsame : l.allow env (some src) n now = (.allow, l) := by
        simp only [BEEFLimiter.allow, henabled, Bool.not_false, ↓reduceIte]
      rw [hsame]
      refine ⟨?_, fun _ _ _ hlookup => hlookup, fun hnone => hnone⟩
      simp only [BEEFLimiter.asks, List.cons_append, List.nil_append, askAll,
        hobj.allowN_unlimited hfree.1, hbyt.allowN_unlimited hfree.2,
        hsound.planeObj.allowN_unlimited hobjects, hsound.planeByt.allowN_unlimited hbytes,
        ↓reduceIte, BEEFLimiter.buckets, decide_true]
  | true =>
      have hsource := hsound.allowSource env src n now
      have hasked := BEEFLimiter.asked env henabled src n now
      generalize l.allow env (some src) n now = out at hasked
      cases hasked with
      | source hrefused =>
          refine ⟨?_, hsource.others, hsource.tracked⟩
          obtain ⟨-, hobj, hbyt⟩ := l.allowSource_rest env src n now
          rw [BEEFLimiter.asks, askAll_append, hsource.asked, hrefused]
          simp only [Bool.false_eq_true, ↓reduceIte, BEEFLimiter.buckets, hobj, hbyt,
            List.map_cons, List.map_nil, List.cons_append, List.nil_append, reduceCtorEq,
            decide_false]
      | objects hgave hobj =>
          refine ⟨?_, hsource.others, hsource.tracked⟩
          rw [BEEFLimiter.asks, askAll_append, hsource.asked, hgave]
          simp only [askAll, hobj, Bool.false_eq_true, ↓reduceIte]
          rfl
      | bytes hgave hobj hbyt =>
          refine ⟨?_, hsource.others, hsource.tracked⟩
          rw [BEEFLimiter.asks, askAll_append, hsource.asked, hgave]
          simp only [askAll, hobj, hbyt, Bool.false_eq_true, ↓reduceIte]
          rfl
      | admitted hgave hobj hbyt =>
          refine ⟨?_, hsource.others, hsource.tracked⟩
          rw [BEEFLimiter.asks, askAll_append, hsource.asked, hgave]
          simp only [askAll, hobj, hbyt, ↓reduceIte]
          rfl

variable (env) in
theorem BEEFLimiter.Sound.allow (hsound : l.Sound) (src : Option NetAddr) (n : Nat) (now : Time) :
    (l.allow env src n now).2.Sound := by
  cases src with
  | none => exact hsound
  | some src =>
      cases henabled : l.enabled with
      | false =>
          simp only [BEEFLimiter.allow, henabled, Bool.not_false, ↓reduceIte]
          exact hsound
      | true =>
          obtain ⟨hobj, hbyt, hsources⟩ := hsound.allowSource_sound env src n now
          have hcfg := (l.allowSource_rest env src n now).1
          have hobj' := hsound.planeObj.allowN now zero_le_one
          have hbyt' := hsound.planeByt.allowN now (Nat.cast_nonneg n)
          rw [← hcfg] at hobj' hbyt'
          have hasked := BEEFLimiter.asked env henabled src n now
          generalize l.allow env (some src) n now = out at hasked
          cases hasked with
          | source hrefused => exact ⟨hobj, hbyt, hsources⟩
          | objects hgave hrefused => exact ⟨hobj', hcfg ▸ hsound.planeByt, hsources⟩
          | bytes hgave hgiven hrefused => exact ⟨hobj', hbyt', hsources⟩
          | admitted hgave hgiven hgranted => exact ⟨hobj', hbyt', hsources⟩

theorem newBEEFLimiter_sound (cfg : BEEFRateConfig) : (newBEEFLimiter cfg).Sound :=
  ⟨newBucket_budget _, newBucket_budget _, fun _ => ⟨newBucket_budget _, newBucket_budget _⟩⟩

/-- The states of a door with a configuration. -/
inductive BEEFLimiter.Reachable (env : Env) (cfg : BEEFRateConfig) : BEEFLimiter → Prop where
  | new : BEEFLimiter.Reachable env cfg (newBEEFLimiter cfg)
  | allow {l : BEEFLimiter} (hreach : BEEFLimiter.Reachable env cfg l) (src : Option NetAddr)
      (n : Nat) (now : Time) : BEEFLimiter.Reachable env cfg (l.allow env src n now).2

theorem BEEFLimiter.Reachable.sound {cfg : BEEFRateConfig} (hreach : l.Reachable env cfg) :
    l.Sound := by
  induction hreach with
  | new => exact newBEEFLimiter_sound cfg
  | allow _ src n now ih => exact ih.allow env src n now

end Allow

/-- No bucket holds less, or more, than time has made of what it held before.  A bucket
that was not there before is a new one. -/
structure BEEFLimiter.SameLevels (l after : BEEFLimiter) (now : Time) : Prop where
  sources : ∀ key sb, after.srcs.lookup key = some sb →
    sb.obj.level now = (l.sourceBuckets key).obj.level now ∧
      sb.byt.level now = (l.sourceBuckets key).byt.level now
  planeObj : after.planeObj.level now = l.planeObj.level now
  planeByt : after.planeByt.level now = l.planeByt.level now

/-- Every bucket with a rate has been charged once: an object, or its bytes up to the
bucket's depth. -/
structure BEEFLimiter.ChargedOnce (l after : BEEFLimiter) (key : String) (n : Nat) (now : Time) :
    Prop where
  sourceObj : 0 < l.cfg.sourceObjectsPerSec →
    (after.sourceBuckets key).obj.level now = (l.sourceBuckets key).obj.level now - 1
  sourceByt : 0 < l.cfg.sourceBytesPerSec →
    (after.sourceBuckets key).byt.level now =
      (l.sourceBuckets key).byt.level now - min (n : Rat) (l.sourceBuckets key).byt.burst
  planeObj : 0 < l.cfg.planeObjectsPerSec →
    after.planeObj.level now = l.planeObj.level now - 1
  planeByt : 0 < l.cfg.planeBytesPerSec →
    after.planeByt.level now = l.planeByt.level now - min (n : Rat) l.planeByt.burst
  others : ∀ other sb, other ≠ key → after.srcs.lookup other = some sb →
    sb.obj.level now = (l.sourceBuckets other).obj.level now ∧
      sb.byt.level now = (l.sourceBuckets other).byt.level now

section Costs

variable {l : BEEFLimiter} {key : String} {n : Nat} {now : Time} {out : RateDecision × BEEFLimiter}

/-- Other sources keep what they have. -/
theorem BEEFLimiter.AllAsked.others_level (hasked : l.AllAsked key n now out) {other : String}
    {sb : SrcBuckets} (hother : other ≠ key) (hlookup : out.2.srcs.lookup other = some sb) :
    sb.obj.level now = (l.sourceBuckets other).obj.level now ∧
      sb.byt.level now = (l.sourceBuckets other).byt.level now := by
  rw [BEEFLimiter.sourceBuckets_of_lookup (hasked.others other sb hother hlookup)]
  exact ⟨rfl, rfl⟩

/-- The levels of all buckets are the same when those of the four that are asked are. -/
theorem BEEFLimiter.AllAsked.sameLevels_iff (hasked : l.AllAsked key n now out)
    (hcfg : out.2.cfg = l.cfg) :
    l.SameLevels out.2 now ↔
      (out.2.buckets key).map (fun b => b.level now) =
        (l.buckets key).map fun b => b.level now := by
  simp only [BEEFLimiter.buckets, List.map_cons, List.map_nil, List.cons.injEq, and_true]
  constructor
  · intro hsame
    refine (and_assoc.mp ⟨?_, hsame.planeObj, hsame.planeByt⟩)
    cases hlookup : out.2.srcs.lookup key with
    | some sb =>
        rw [BEEFLimiter.sourceBuckets_of_lookup hlookup]
        exact hsame.sources key sb hlookup
    | none =>
        have hbefore := hasked.tracked hlookup
        rw [BEEFLimiter.sourceBuckets, BEEFLimiter.sourceBuckets, hlookup, hbefore, hcfg]
        exact ⟨rfl, rfl⟩
  · rintro ⟨hobj, hbyt, hplaneObj, hplaneByt⟩
    refine ⟨?_, hplaneObj, hplaneByt⟩
    intro other sb hlookup
    by_cases hother : other = key
    · subst hother
      rw [BEEFLimiter.sourceBuckets_of_lookup hlookup] at hobj hbyt
      exact ⟨hobj, hbyt⟩
    · exact hasked.others_level hother hlookup

theorem BEEFLimiter.Sound.askable (hsound : l.Sound) (key : String) (n : Nat) :
    Askable (l.asks key n) := by
  obtain ⟨hobj, hbyt⟩ := hsound.sources key
  have hn : (0 : Rat) ≤ n := Nat.cast_nonneg n
  intro ask hask
  simp only [BEEFLimiter.asks, List.cons_append, List.nil_append, List.mem_cons,
    List.not_mem_nil, or_false] at hask
  rcases hask with rfl | rfl | rfl | rfl
  · exact ⟨⟨_, hobj⟩, zero_le_one⟩
  · exact ⟨⟨_, hbyt⟩, hn⟩
  · exact ⟨⟨_, hsound.planeObj⟩, zero_le_one⟩
  · exact ⟨⟨_, hsound.planeByt⟩, hn⟩

/-- A refusal costs nothing if and only if it comes first. -/
theorem BEEFLimiter.AllAsked.refused_iff (hasked : l.AllAsked key n now out) (hsound : l.Sound)
    (hcfg : out.2.cfg = l.cfg) (hrefused : out.1 ≠ .allow) :
    l.SameLevels out.2 now ↔ FirstRefuses now (l.asks key n) := by
  have hall := hasked.asked
  rw [decide_eq_false hrefused] at hall
  have hrefuses : (askAll now (l.asks key n)).1 = false := by rw [hall]
  have hlevels := levels_of_refused_iff (hsound.askable key n) hrefuses
  rw [hall] at hlevels
  rw [hasked.sameLevels_iff hcfg, ← hlevels]
  rfl

/-- An object bucket with a rate loses a whole token if and only if it holds one. -/
theorem Bucket.Budget.charged_one_iff {b : Bucket} {perSec level : Rat} (hbudget : b.Budget perSec)
    (hpos : 0 < perSec) : level - min 1 b.burst = level - 1 ↔ 1 ≤ perSec := by
  rw [hbudget.burst, max_eq_left hpos.le, sub_right_inj, min_eq_left_iff]

/-- An admitted object is charged once everywhere, and as a whole object where the rate
is one at least. -/
theorem BEEFLimiter.AllAsked.admitted_iff (hasked : l.AllAsked key n now out) (hsound : l.Sound)
    (hadmitted : out.1 = .allow) :
    l.ChargedOnce out.2 key n now ↔
      (0 < l.cfg.sourceObjectsPerSec → 1 ≤ l.cfg.sourceObjectsPerSec) ∧
        (0 < l.cfg.planeObjectsPerSec → 1 ≤ l.cfg.planeObjectsPerSec) := by
  have hall := hasked.asked
  rw [decide_eq_true hadmitted] at hall
  have hgives : (askAll now (l.asks key n)).1 = true := by rw [hall]
  have hlevels := levels_of_given (hsound.askable key n) hgives
  rw [hall] at hlevels
  simp only [BEEFLimiter.buckets, BEEFLimiter.asks, List.cons_append, List.nil_append,
    List.map_cons, List.map_nil, List.cons.injEq, and_true] at hlevels
  obtain ⟨hobj, hbyt, hplaneObj, hplaneByt⟩ := hlevels
  have hbudget := (hsound.sources key).1
  constructor
  · intro hcharged
    constructor
    · intro hpos
      apply (hbudget.charged_one_iff hpos).mp
      exact hobj.symm.trans (hcharged.sourceObj hpos)
    · intro hpos
      apply (hsound.planeObj.charged_one_iff hpos).mp
      exact hplaneObj.symm.trans (hcharged.planeObj hpos)
  · rintro ⟨hwhole, hplaneWhole⟩
    refine ⟨fun hpos => ?_, fun _ => hbyt, fun hpos => ?_, fun _ => hplaneByt, ?_⟩
    · exact hobj.trans ((hbudget.charged_one_iff hpos).mpr (hwhole hpos))
    · exact hplaneObj.trans ((hsound.planeObj.charged_one_iff hpos).mpr (hplaneWhole hpos))
    · intro other sb hother hlookup
      exact hasked.others_level hother hlookup

end Costs

/-- What a request costs at a door in any state.  Refused, it costs nothing if and only
if the first bucket with anything to charge is the one that refuses; admitted, it is
charged once to every bucket, a whole object where the rate is one at least. -/
theorem request_cost_iff {env : Env} {cfg : BEEFRateConfig} {l : BEEFLimiter}
    (hreach : l.Reachable env cfg) (src : NetAddr) (n : Nat) (now : Time) :
    ((l.allow env (some src) n now).1 ≠ .allow →
        (l.SameLevels (l.allow env (some src) n now).2 now ↔
          FirstRefuses now (l.asks (l.keyOf env src) n))) ∧
      ((l.allow env (some src) n now).1 = .allow →
        (l.ChargedOnce (l.allow env (some src) n now).2 (l.keyOf env src) n now ↔
          (0 < l.cfg.sourceObjectsPerSec → 1 ≤ l.cfg.sourceObjectsPerSec) ∧
            (0 < l.cfg.planeObjectsPerSec → 1 ≤ l.cfg.planeObjectsPerSec))) := by
  have hsound := hreach.sound
  have hasked := hsound.allow_asks env src n now
  constructor
  · intro hrefused
    exact hasked.refused_iff hsound (l.allow_cfg env _ _ _) hrefused
  · intro hadmitted
    exact hasked.admitted_iff hsound hadmitted

section Sample

open Reference

/-- Two objects a second from a source, and one from them all. -/
def tightPlane : BEEFRateConfig :=
  ⟨2, 0, 0, 1, 0, 0⟩

/-- The door after its first object, at one second. -/
def spentPlane : BEEFLimiter :=
  ((newBEEFLimiter tightPlane).allow Reference.env (some (source 1)) 100 1000000000).2

theorem spentPlane_reachable : spentPlane.Reachable Reference.env tightPlane :=
  .allow .new _ _ _

/-- The first object is charged once to both; the second is refused, at a cost. -/
theorem request_cost_sample :
    (newBEEFLimiter tightPlane).ChargedOnce spentPlane
        ((newBEEFLimiter tightPlane).keyOf Reference.env (source 1)) 100 1000000000 ∧
      ¬ spentPlane.SameLevels
        (spentPlane.allow Reference.env (some (source 1)) 100 1000000000).2 1000000000 := by
  constructor
  · have hnew : (newBEEFLimiter tightPlane).Reachable Reference.env tightPlane := .new
    have hcost := request_cost_iff hnew (source 1) 100 1000000000
    exact (hcost.2 (by decide +kernel)).mpr (by decide +kernel)
  · have hcost := request_cost_iff spentPlane_reachable (source 1) 100 1000000000
    rw [hcost.1 (by decide +kernel)]
    decide +kernel

/-- A second object is refused by the plane, and its source has paid for it. -/
theorem refusal_charges_source :
    (spentPlane.allow Reference.env (some (source 1)) 100 1000000000).1 = .denyPlane ∧
      (spentPlane.sourceBuckets (spentPlane.keyOf Reference.env (source 1))).obj.level
        1000000000 = 1 ∧
      ((spentPlane.allow Reference.env (some (source 1)) 100 1000000000).2.sourceBuckets
        (spentPlane.keyOf Reference.env (source 1))).obj.level 1000000000 = 0 := by
  decide +kernel

end Sample

end ShardProxy
