/-
The buckets of a door.  Each is made with its rate for its depth, so it is full
again after a second; a request for more than the depth is charged the depth.  The
plane's budgets therefore bound what a door emits only while no request is for
more than a bucket holds.
-/
import ShardProxy.Lib.TokenBucket
import ShardProxy.RateLimit

namespace ShardProxy

open ByteField TokenBucket

def seconds (now : Time) : Rat :=
  (now : Rat) / 1000000000

section Clock

variable {earlier later : Time}

theorem seconds_le_seconds (hle : earlier ≤ later) : seconds earlier ≤ seconds later := by
  have hcast : (earlier : Rat) ≤ (later : Rat) := Nat.cast_le.mpr hle
  rw [seconds, seconds]
  linarith

theorem elapsedSeconds_self (now : Time) : elapsedSeconds now now = 0 := by
  rw [elapsedSeconds, sub_self]
  norm_num

/-- Time that went by is counted in full, as far as a duration goes. -/
theorem elapsedSeconds_of_le (hle : earlier ≤ later) :
    elapsedSeconds later earlier =
      min ((2 ^ 63 - 1 : Rat) / 1000000000) (seconds later - seconds earlier) := by
  have hcast : (earlier : Int) ≤ (later : Int) := Int.ofNat_le.mpr hle
  have hlow : max (-(2 ^ 63)) (min (2 ^ 63 - 1) ((later : Int) - (earlier : Int))) =
      min (2 ^ 63 - 1) ((later : Int) - (earlier : Int)) := by omega
  rw [elapsedSeconds, hlow, seconds, seconds, ← sub_div, min_div_div_right (by norm_num)]
  norm_num

theorem elapsedSeconds_of_gt (hgt : later < earlier) : elapsedSeconds later earlier < 0 := by
  have hcast : (later : Int) < (earlier : Int) := Int.ofNat_lt.mpr hgt
  have hneg : max (-(2 ^ 63)) (min (2 ^ 63 - 1) ((later : Int) - (earlier : Int))) < 0 := by omega
  exact div_neg_of_neg_of_pos (Int.cast_lt_zero.mpr hneg) (by norm_num)

theorem elapsedSeconds_pos (hlt : earlier < later) : 0 < elapsedSeconds later earlier := by
  have hcast : (earlier : Rat) < (later : Rat) := Nat.cast_lt.mpr hlt
  rw [elapsedSeconds_of_le (Nat.le_of_lt hlt)]
  refine lt_min (by norm_num) ?_
  rw [seconds, seconds]
  linarith

/-- Short spans add up; long ones need not, for the saturation. -/
theorem elapsedSeconds_add {middle : Time} (hfirst : earlier ≤ middle) (hsecond : middle ≤ later)
    (hshort : later < earlier + 1000000000) :
    elapsedSeconds later earlier = elapsedSeconds middle earlier + elapsedSeconds later middle := by
  have hcast : (earlier : Int) ≤ middle ∧ (middle : Int) ≤ later ∧
      (later : Int) < earlier + 1000000000 :=
    ⟨Int.ofNat_le.mpr hfirst, Int.ofNat_le.mpr hsecond, by exact_mod_cast hshort⟩
  have hspan : ∀ span : Int, 0 ≤ span → span < 1000000000 →
      max (-(2 ^ 63)) (min (2 ^ 63 - 1) span) = span := by omega
  rw [elapsedSeconds, elapsedSeconds, elapsedSeconds, hspan _ (by omega) (by omega),
    hspan _ (by omega) (by omega), hspan _ (by omega) (by omega), ← add_div, ← Int.cast_add,
    sub_add_sub_cancel']

/-- The seconds between two instants, with no bound on a duration. -/
def exactSeconds (later earlier : Time) : Rat :=
  seconds later - seconds earlier

/-- A reading of the time between two instants.  It is positive exactly when time
went by, and never more than what went by. -/
structure Elapses (elapsed : Time → Time → Rat) : Prop where
  pos_iff : ∀ {later earlier : Time}, 0 < elapsed later earlier ↔ earlier < later
  le_exact : ∀ {later earlier : Time}, earlier ≤ later →
    elapsed later earlier ≤ exactSeconds later earlier

theorem exactSeconds_elapses : Elapses exactSeconds := by
  refine ⟨fun {later earlier} => ?_, fun _ => le_refl _⟩
  rw [exactSeconds, seconds, seconds, sub_pos, div_lt_div_iff_of_pos_right (by norm_num),
    Nat.cast_lt]

theorem elapsedSeconds_elapses : Elapses elapsedSeconds := by
  refine ⟨fun {later earlier} => ⟨fun hpos => ?_, elapsedSeconds_pos⟩, fun hle => ?_⟩
  · by_contra hnot
    rcases Nat.lt_or_eq_of_le (Nat.le_of_not_lt hnot) with hlt | heq
    · exact lt_asymm hpos (elapsedSeconds_of_gt hlt)
    · rw [heq, elapsedSeconds_self] at hpos
      exact lt_irrefl 0 hpos
  · rw [elapsedSeconds_of_le hle]
    exact min_le_right _ _

end Clock

section Reading

variable (elapsed : Time → Time → Rat)

/-- `Bucket.refill` with the time read by `elapsed`. -/
def Bucket.refillBy (b : Bucket) (now : Time) : Bucket :=
  let b := if b.last = 0 then { b with last := now } else b
  let span := elapsed now b.last
  if 0 < span then
    { b with tokens := min (b.tokens + span * b.rate) b.burst, last := now }
  else b

/-- `Bucket.allowN` with the time read by `elapsed`. -/
def Bucket.allowNBy (b : Bucket) (now : Time) (n : Rat) : Bool × Bucket :=
  if b.rate ≤ 0 then (true, b)
  else
    let b := b.refillBy elapsed now
    let n := min n b.burst
    if b.tokens < n then (false, b) else (true, { b with tokens := b.tokens - n })

variable {elapsed} {b : Bucket} {now : Time}

namespace Elapses

theorem refillBy_unset (helapsed : Elapses elapsed) (hlast : b.last = 0) :
    b.refillBy elapsed now = { b with last := now } := by
  have hnone : ¬ 0 < elapsed now now := fun hpos => lt_irrefl now (helapsed.pos_iff.mp hpos)
  simp only [Bucket.refillBy, hlast, ↓reduceIte, hnone]

theorem refillBy_later (helapsed : Elapses elapsed) (hlast : b.last ≠ 0) (hnow : b.last < now) :
    b.refillBy elapsed now =
      { b with tokens := fill b.burst b.tokens (elapsed now b.last * b.rate), last := now } := by
  simp only [Bucket.refillBy, hlast, ↓reduceIte, helapsed.pos_iff.mpr hnow, fill]

theorem refillBy_stale (helapsed : Elapses elapsed) (hlast : b.last ≠ 0) (hnow : now ≤ b.last) :
    b.refillBy elapsed now = b := by
  have hnone : ¬ 0 < elapsed now b.last :=
    fun hpos => Nat.not_lt_of_le hnow (helapsed.pos_iff.mp hpos)
  simp only [Bucket.refillBy, hlast, ↓reduceIte, hnone]

end Elapses

end Reading

/-- What a bucket holds at an instant. -/
def Bucket.level (b : Bucket) (now : Time) : Rat :=
  (b.refill now).tokens

/-- A bucket made for a rate by `newBucket`, its depth the rate, and unlimited for none. -/
structure Bucket.Budget (perSec : Rat) (b : Bucket) : Prop where
  rate : b.rate = max perSec 0
  burst : b.burst = max perSec 0
  nonneg : 0 ≤ b.tokens
  le_burst : b.tokens ≤ b.burst

section Buckets

variable {b : Bucket} {perSec : Rat} {now : Time}

theorem Bucket.refill_unset (hlast : b.last = 0) : b.refill now = { b with last := now } :=
  elapsedSeconds_elapses.refillBy_unset hlast

theorem Bucket.refill_later (hlast : b.last ≠ 0) (hnow : b.last < now) :
    b.refill now =
      { b with tokens := fill b.burst b.tokens (elapsedSeconds now b.last * b.rate),
               last := now } :=
  elapsedSeconds_elapses.refillBy_later hlast hnow

theorem Bucket.refill_stale (hlast : b.last ≠ 0) (hnow : now ≤ b.last) : b.refill now = b :=
  elapsedSeconds_elapses.refillBy_stale hlast hnow

theorem Bucket.refill_make (b : Bucket) (now : Time) :
    (b.refill now).rate = b.rate ∧ (b.refill now).burst = b.burst := by
  by_cases hlast : b.last = 0
  · rw [refill_unset hlast]
    exact ⟨rfl, rfl⟩
  · rcases Nat.lt_or_ge b.last now with hlater | hstale
    · rw [refill_later hlast hlater]
      exact ⟨rfl, rfl⟩
    · rw [refill_stale hlast hstale]
      exact ⟨rfl, rfl⟩

theorem Bucket.refill_last (hnow : b.last ≤ now) : (b.refill now).last = now := by
  by_cases hlast : b.last = 0
  · rw [refill_unset hlast]
  · rcases Nat.lt_or_eq_of_le hnow with hlater | heq
    · rw [refill_later hlast hlater]
    · rw [refill_stale hlast (Nat.le_of_eq heq.symm), heq]

/-- A second refill at the same instant does nothing. -/
theorem Bucket.level_refilled (b : Bucket) (now : Time) (tokens : Rat) :
    Bucket.level { b.refill now with tokens := tokens } now = tokens := by
  have hsame : ∀ b : Bucket, b.last = now → b.level now = b.tokens := by
    intro b hnow
    rw [Bucket.level]
    by_cases hlast : b.last = 0
    · rw [refill_unset hlast]
    · rw [refill_stale hlast (Nat.le_of_eq hnow.symm)]
  by_cases hlast : b.last = 0
  · exact hsame _ (by rw [refill_unset hlast])
  · rcases Nat.lt_or_ge b.last now with hlater | hstale
    · exact hsame _ (by rw [refill_later hlast hlater])
    · have hagain : Bucket.refill { b with tokens := tokens } now = { b with tokens := tokens } :=
        refill_stale hlast hstale
      rw [Bucket.level, refill_stale hlast hstale, hagain]

theorem newBucket_budget (perSec : Rat) : (newBucket perSec perSec).Budget perSec := by
  rcases le_or_gt perSec 0 with hnone | hpos
  · rw [newBucket, if_pos hnone]
    exact ⟨(max_eq_right hnone).symm, (max_eq_right hnone).symm, le_refl 0, le_refl 0⟩
  · rw [newBucket, if_neg (not_le_of_gt hpos)]
    simp only [lt_self_iff_false, ↓reduceIte]
    have hmax : max perSec 0 = perSec := max_eq_left hpos.le
    exact ⟨hmax.symm, hmax.symm, hpos.le, le_refl perSec⟩

theorem newBucket_level (perSec : Rat) (now : Time) :
    (newBucket perSec perSec).last = 0 ∧
      (newBucket perSec perSec).level now = (newBucket perSec perSec).burst := by
  have hnew : (newBucket perSec perSec).last = 0 ∧
      (newBucket perSec perSec).tokens = (newBucket perSec perSec).burst := by
    rw [newBucket]
    split_ifs <;> exact ⟨rfl, rfl⟩
  refine ⟨hnew.1, ?_⟩
  rw [Bucket.level, Bucket.refill_unset hnew.1]
  exact hnew.2

theorem Bucket.Budget.le_level (hbudget : b.Budget perSec) (now : Time) :
    b.tokens ≤ b.level now ∧ b.level now ≤ b.burst := by
  rw [Bucket.level]
  by_cases hlast : b.last = 0
  · rw [refill_unset hlast]
    exact ⟨le_refl _, hbudget.le_burst⟩
  · rcases Nat.lt_or_ge b.last now with hlater | hstale
    · rw [refill_later hlast hlater]
      have hgain : 0 ≤ elapsedSeconds now b.last * b.rate :=
        mul_nonneg (elapsedSeconds_pos hlater).le (hbudget.rate ▸ le_max_right _ _)
      exact ⟨le_min (le_add_of_nonneg_right hgain) hbudget.le_burst, fill_le_cap _ _ _⟩
    · rw [refill_stale hlast hstale]
      exact ⟨le_refl _, hbudget.le_burst⟩

/-- A level is never more than the time that went by allows. -/
theorem Bucket.Budget.level_le_fill (hbudget : b.Budget perSec) (hnow : b.last ≤ now) :
    b.level now ≤ fill b.burst b.tokens (b.rate * (seconds now - seconds b.last)) := by
  have hrate : 0 ≤ b.rate := hbudget.rate ▸ le_max_right _ _
  have hspan : 0 ≤ seconds now - seconds b.last := sub_nonneg.mpr (seconds_le_seconds hnow)
  have hkeep : b.tokens ≤ fill b.burst b.tokens (b.rate * (seconds now - seconds b.last)) :=
    le_min (le_add_of_nonneg_right (mul_nonneg hrate hspan)) hbudget.le_burst
  rw [Bucket.level]
  by_cases hlast : b.last = 0
  · rw [refill_unset hlast]
    exact hkeep
  · rcases Nat.lt_or_eq_of_le hnow with hlater | heq
    · rw [refill_later hlast hlater, elapsedSeconds_of_le hnow, mul_comm]
      exact fill_mono (le_refl _) (mul_le_mul_of_nonneg_left (min_le_right _ _) hrate)
    · rw [refill_stale hlast (Nat.le_of_eq heq.symm)]
      exact hkeep

theorem Bucket.Budget.with_tokens (hbudget : b.Budget perSec) (now : Time) {tokens : Rat}
    (hnonneg : 0 ≤ tokens) (hle : tokens ≤ b.burst) :
    Bucket.Budget perSec { b.refill now with tokens := tokens } :=
  ⟨(b.refill_make now).1.trans hbudget.rate, (b.refill_make now).2.trans hbudget.burst, hnonneg,
    hle.trans_eq (b.refill_make now).2.symm⟩

theorem Bucket.Budget.refill (hbudget : b.Budget perSec) (now : Time) :
    (b.refill now).Budget perSec :=
  hbudget.with_tokens now (hbudget.nonneg.trans (hbudget.le_level now).1) (hbudget.le_level now).2

theorem Bucket.Budget.allowN_unlimited (hbudget : b.Budget perSec) (hrate : perSec ≤ 0) (now : Time)
    (n : Rat) : b.allowN now n = (true, b) := by
  have hnone : b.rate ≤ 0 := hbudget.rate.trans_le (max_le hrate (le_refl 0))
  rw [Bucket.allowN, if_pos hnone]

/-- With one it compares what it holds with what is asked, its depth at most. -/
theorem Bucket.Budget.allowN_eq (hbudget : b.Budget perSec) (hrate : 0 < perSec) (now : Time)
    (n : Rat) :
    b.allowN now n = if b.level now < min n b.burst then (false, b.refill now)
      else (true, { b.refill now with tokens := b.level now - min n b.burst }) := by
  have hpos : ¬ b.rate ≤ 0 := by
    rw [hbudget.rate, max_eq_left hrate.le]
    exact not_le_of_gt hrate
  simp only [Bucket.allowN, hpos, ↓reduceIte, (b.refill_make now).2, Bucket.level]

theorem Bucket.Budget.allowN (hbudget : b.Budget perSec) (now : Time) {n : Rat} (hn : 0 ≤ n) :
    (b.allowN now n).2.Budget perSec := by
  rcases le_or_gt perSec 0 with hnone | hpos
  · rw [hbudget.allowN_unlimited hnone]
    exact hbudget
  · rw [hbudget.allowN_eq hpos]
    split
    · exact hbudget.refill now
    · rename_i hgranted
      have hburst : 0 ≤ b.burst := hbudget.burst ▸ le_max_right _ _
      have hcost : 0 ≤ min n b.burst := le_min hn hburst
      exact hbudget.with_tokens now (sub_nonneg.mpr (not_lt.mp hgranted))
        ((sub_le_self _ hcost).trans (hbudget.le_level now).2)

theorem Bucket.Budget.level_of_second (hbudget : b.Budget perSec) (hlast : b.last ≠ 0)
    (hnow : b.last + 1000000000 ≤ now) : b.level now = b.burst := by
  have hlater : b.last < now := Nat.lt_of_lt_of_le (Nat.lt_add_of_pos_right (by decide)) hnow
  have hrate : 0 ≤ b.rate := hbudget.rate ▸ le_max_right _ _
  have hsecond : 1 ≤ elapsedSeconds now b.last := by
    have hcast : (b.last : Rat) + 1000000000 ≤ (now : Rat) := by exact_mod_cast hnow
    rw [elapsedSeconds_of_le hlater.le]
    refine le_min (by norm_num) ?_
    rw [seconds, seconds]
    linarith
  have hgain : b.rate ≤ elapsedSeconds now b.last * b.rate := le_mul_of_one_le_left hrate hsecond
  rw [Bucket.level, refill_later hlast hlater]
  apply min_eq_right
  rw [hbudget.burst, ← hbudget.rate]
  linarith [hbudget.nonneg]

theorem Bucket.Budget.gives_of_full (hbudget : b.Budget perSec) (hfull : b.level now = b.burst)
    (n : Rat) : (b.allowN now n).1 = true := by
  rcases le_or_gt perSec 0 with hnone | hpos
  · rw [hbudget.allowN_unlimited hnone]
  · rw [hbudget.allowN_eq hpos, hfull, if_neg (not_lt_of_ge (min_le_right _ _))]

end Buckets

/-- A source's two buckets asked for an object, the second only if the first gave. -/
def SrcBuckets.charge (sb : SrcBuckets) (n : Nat) (now : Time) : Bool × SrcBuckets :=
  if (sb.obj.allowN now 1).1 then
    ((sb.byt.allowN now n).1, ⟨(sb.obj.allowN now 1).2, (sb.byt.allowN now n).2, now⟩)
  else (false, ⟨(sb.obj.allowN now 1).2, sb.byt, now⟩)

/-- The key of a source at a door. -/
def BEEFLimiter.keyOf (env : Env) (l : BEEFLimiter) (src : NetAddr) : String :=
  sourceKey env src l.cfg.sourcePrefixBits

/-- No source is metered. -/
def BEEFLimiter.SourcesFree (l : BEEFLimiter) : Prop :=
  l.cfg.sourceObjectsPerSec ≤ 0 ∧ l.cfg.sourceBytesPerSec ≤ 0

section Limiter

variable {env : Env} {l : BEEFLimiter} {src : NetAddr} {n : Nat} {now : Time}

theorem BEEFLimiter.allowSource_free (hfree : l.SourcesFree) :
    l.allowSource env src n now = (true, l) :=
  if_pos hfree

theorem BEEFLimiter.allowSource_eq (hfree : ¬ l.SourcesFree) :
    l.allowSource env src n now =
      (((l.track env (l.keyOf env src)).1.charge n now).1,
        (l.track env (l.keyOf env src)).2.putSource (l.keyOf env src)
          ((l.track env (l.keyOf env src)).1.charge n now).2) := by
  rw [BEEFLimiter.SourcesFree] at hfree
  rw [BEEFLimiter.allowSource, if_neg hfree, SrcBuckets.charge, BEEFLimiter.keyOf]
  dsimp only
  split <;> rfl

variable (env) in
theorem BEEFLimiter.track_rest (l : BEEFLimiter) (key : String) :
    (l.track env key).2.cfg = l.cfg ∧ (l.track env key).2.planeObj = l.planeObj ∧
      (l.track env key).2.planeByt = l.planeByt := by
  simp only [BEEFLimiter.track, BEEFLimiter.evictOldest]
  split
  · exact ⟨rfl, rfl, rfl⟩
  · split_ifs <;> exact ⟨rfl, rfl, rfl⟩

theorem BEEFLimiter.putSource_rest (l : BEEFLimiter) (key : String) (sb : SrcBuckets) :
    (l.putSource key sb).cfg = l.cfg ∧ (l.putSource key sb).planeObj = l.planeObj ∧
      (l.putSource key sb).planeByt = l.planeByt := by
  rw [BEEFLimiter.putSource]
  split_ifs <;> exact ⟨rfl, rfl, rfl⟩

variable (env) in
/-- The source tier leaves the plane's buckets alone. -/
theorem BEEFLimiter.allowSource_rest (l : BEEFLimiter) (src : NetAddr) (n : Nat) (now : Time) :
    (l.allowSource env src n now).2.cfg = l.cfg ∧
      (l.allowSource env src n now).2.planeObj = l.planeObj ∧
      (l.allowSource env src n now).2.planeByt = l.planeByt := by
  by_cases hfree : l.SourcesFree
  · rw [allowSource_free hfree]
    exact ⟨rfl, rfl, rfl⟩
  · obtain ⟨hcfg, hobj, hbyt⟩ := l.track_rest env (l.keyOf env src)
    rw [allowSource_eq hfree]
    obtain ⟨hcfg', hobj', hbyt'⟩ := (l.track env (l.keyOf env src)).2.putSource_rest
      (l.keyOf env src) ((l.track env (l.keyOf env src)).1.charge n now).2
    exact ⟨hcfg'.trans hcfg, hobj'.trans hobj, hbyt'.trans hbyt⟩

/-- What a request comes to, by the first bucket that refuses. -/
inductive BEEFLimiter.Asked (env : Env) (l : BEEFLimiter) (src : NetAddr) (n : Nat) (now : Time) :
    RateDecision × BEEFLimiter → Prop where
  | source (hsource : (l.allowSource env src n now).1 = false) :
      Asked env l src n now (.denySource, (l.allowSource env src n now).2)
  | objects (hsource : (l.allowSource env src n now).1 = true)
      (hobj : (l.planeObj.allowN now 1).1 = false) :
      Asked env l src n now (.denyPlane, { (l.allowSource env src n now).2 with
        planeObj := (l.planeObj.allowN now 1).2, planeByt := l.planeByt })
  | bytes (hsource : (l.allowSource env src n now).1 = true)
      (hobj : (l.planeObj.allowN now 1).1 = true) (hbyt : (l.planeByt.allowN now n).1 = false) :
      Asked env l src n now (.denyPlane, { (l.allowSource env src n now).2 with
        planeObj := (l.planeObj.allowN now 1).2, planeByt := (l.planeByt.allowN now n).2 })
  | admitted (hsource : (l.allowSource env src n now).1 = true)
      (hobj : (l.planeObj.allowN now 1).1 = true) (hbyt : (l.planeByt.allowN now n).1 = true) :
      Asked env l src n now (.allow, { (l.allowSource env src n now).2 with
        planeObj := (l.planeObj.allowN now 1).2, planeByt := (l.planeByt.allowN now n).2 })

variable (env) in
theorem BEEFLimiter.asked (henabled : l.enabled = true) (src : NetAddr) (n : Nat) (now : Time) :
    BEEFLimiter.Asked env l src n now (l.allow env (some src) n now) := by
  obtain ⟨-, hplaneObj, hplaneByt⟩ := l.allowSource_rest env src n now
  simp only [BEEFLimiter.allow, henabled, Bool.not_true, Bool.false_eq_true, ↓reduceIte,
    hplaneObj, hplaneByt]
  cases hsource : (l.allowSource env src n now).1 with
  | false => exact .source hsource
  | true =>
      cases hobj : (l.planeObj.allowN now 1).1 with
      | false => exact .objects hsource hobj
      | true =>
          cases hbyt : (l.planeByt.allowN now n).1 with
          | false => exact .bytes hsource hobj hbyt
          | true => exact .admitted hsource hobj hbyt

variable (env) in
theorem BEEFLimiter.allow_cfg (l : BEEFLimiter) (src : Option NetAddr) (n : Nat) (now : Time) :
    (l.allow env src n now).2.cfg = l.cfg := by
  cases src with
  | none => rfl
  | some src =>
      cases henabled : l.enabled with
      | false => simp only [BEEFLimiter.allow, henabled, Bool.not_false, ↓reduceIte]
      | true =>
          have hasked := BEEFLimiter.asked env henabled src n now
          generalize l.allow env (some src) n now = out at hasked
          cases hasked with
          | _ => exact (l.allowSource_rest env src n now).1

theorem BEEFLimiter.enabled_of_cfg {other : BEEFLimiter} (hcfg : other.cfg = l.cfg) :
    other.enabled = l.enabled := by
  rw [BEEFLimiter.enabled, BEEFLimiter.enabled, hcfg]

end Limiter

end ShardProxy
