/-
The account of one bucket over any sequence of requests.  The times of the requests
come in any order: a request from before `last` refills nothing and moves nothing.
Time is read either exactly or as the code reads it, as a duration of 64 bits.
-/
import ShardProxy.RateBudget

namespace ShardProxy

open TokenBucket

structure BucketCall where
  now : Time
  n : Rat
deriving DecidableEq

section Runs

variable (elapsed : Time → Time → Rat)

/-- A bucket after a sequence of requests. -/
def Bucket.runBy (b : Bucket) : List BucketCall → Bucket
  | [] => b
  | call :: rest => Bucket.runBy (b.allowNBy elapsed call.now call.n).2 rest

/-- What a request takes: its size or the depth of the bucket, if it is admitted. -/
def Bucket.takenBy (b : Bucket) (call : BucketCall) : Rat :=
  if (b.allowNBy elapsed call.now call.n).1 then min call.n b.burst else 0

/-- What a sequence of requests takes. -/
def Bucket.admittedBy (b : Bucket) : List BucketCall → Rat
  | [] => 0
  | call :: rest => b.takenBy elapsed call +
      Bucket.admittedBy (b.allowNBy elapsed call.now call.n).2 rest

end Runs

/-- Where the advance of `last` starts: the first request sets it, and brings nothing. -/
def Bucket.since (b : Bucket) : List BucketCall → Time
  | [] => b.last
  | call :: _ => if b.last = 0 then call.now else b.last

/-- A request at a set time, for no less than nothing. -/
def BucketCall.Fits (call : BucketCall) : Prop :=
  call.now ≠ 0 ∧ 0 ≤ call.n

/-- A bucket with a rate, filled no further than its depth; full until it is first asked. -/
structure Bucket.Metered (b : Bucket) : Prop where
  rate : 0 < b.rate
  nonneg : 0 ≤ b.tokens
  le_burst : b.tokens ≤ b.burst
  fresh : b.last = 0 → b.tokens = b.burst

theorem newBucket_metered {rate : Rat} (hrate : 0 < rate) (burst : Rat) :
    (newBucket rate burst).Metered := by
  rw [newBucket, if_neg (not_le_of_gt hrate)]
  split
  · exact ⟨hrate, hrate.le, le_refl _, fun _ => rfl⟩
  · rename_i hdeep
    exact ⟨hrate, hrate.le.trans (not_lt.mp hdeep), le_refl _, fun _ => rfl⟩

/-- What a refill at a set time does: it keeps the make, moves `last` forward if at all,
and adds no more than the advance of `last` is worth. -/
structure Bucket.Refilled (b : Bucket) (now : Time) (b' : Bucket) : Prop where
  rate : b'.rate = b.rate
  burst : b'.burst = b.burst
  le_last : b.last ≤ b'.last
  set : b'.last ≠ 0
  adds : b.tokens ≤ b'.tokens
  le_burst : b'.tokens ≤ b.burst
  gain : b'.tokens ≤
    b.tokens + b.rate * (seconds b'.last - seconds (if b.last = 0 then now else b.last))

section Steps

variable {elapsed : Time → Time → Rat} {b : Bucket} {now : Time} {n : Rat}

theorem Bucket.Metered.refilled (hb : b.Metered) (helapsed : Elapses elapsed) (hnow : now ≠ 0) :
    b.Refilled now (b.refillBy elapsed now) := by
  by_cases hlast : b.last = 0
  · rw [helapsed.refillBy_unset hlast]
    refine ⟨rfl, rfl, hlast ▸ Nat.zero_le now, hnow, le_refl _, hb.le_burst, ?_⟩
    rw [if_pos hlast, sub_self, mul_zero, add_zero]
  · rcases Nat.lt_or_ge b.last now with hlater | hstale
    · have hspan : 0 < elapsed now b.last := helapsed.pos_iff.mpr hlater
      have hgain : 0 ≤ elapsed now b.last * b.rate := mul_nonneg hspan.le hb.rate.le
      rw [helapsed.refillBy_later hlast hlater]
      refine ⟨rfl, rfl, hlater.le, hnow, le_min (le_add_of_nonneg_right hgain) hb.le_burst,
        fill_le_cap _ _ _, (fill_le_add _ _ _).trans ?_⟩
      rw [if_neg hlast, mul_comm]
      have hread : elapsed now b.last ≤ seconds now - seconds b.last :=
        helapsed.le_exact hlater.le
      exact add_le_add_right (mul_le_mul_of_nonneg_left hread hb.rate.le) _
    · rw [helapsed.refillBy_stale hlast hstale]
      refine ⟨rfl, rfl, le_refl _, hlast, le_refl _, hb.le_burst, ?_⟩
      rw [if_neg hlast, sub_self, mul_zero, add_zero]

theorem Bucket.Metered.allowNBy_eq (hb : b.Metered) (elapsed : Time → Time → Rat) (now : Time)
    (n : Rat) :
    b.allowNBy elapsed now n =
      if (b.refillBy elapsed now).tokens < min n (b.refillBy elapsed now).burst then
        (false, b.refillBy elapsed now)
      else (true, { b.refillBy elapsed now with
        tokens := (b.refillBy elapsed now).tokens - min n (b.refillBy elapsed now).burst }) :=
  if_neg (not_le_of_gt hb.rate)

/-- What one request does to the account. -/
structure Bucket.Charged (b : Bucket) (now : Time) (taken : Rat) (b' : Bucket) : Prop where
  metered : b'.Metered
  rate : b'.rate = b.rate
  burst : b'.burst = b.burst
  le_last : b.last ≤ b'.last
  set : b'.last ≠ 0
  account : taken + b'.tokens ≤
    b.tokens + b.rate * (seconds b'.last - seconds (if b.last = 0 then now else b.last))

theorem Bucket.Metered.charged (hb : b.Metered) (helapsed : Elapses elapsed) {call : BucketCall}
    (hcall : call.Fits) :
    b.Charged call.now (b.takenBy elapsed call) (b.allowNBy elapsed call.now call.n).2 := by
  obtain ⟨hnow, hn⟩ := hcall
  have hfill := hb.refilled helapsed hnow
  have hburst : 0 ≤ b.burst := hb.nonneg.trans hb.le_burst
  rw [Bucket.takenBy, hb.allowNBy_eq]
  by_cases hshort : (b.refillBy elapsed call.now).tokens <
      min call.n (b.refillBy elapsed call.now).burst
  · rw [if_pos hshort]
    refine ⟨⟨hfill.rate ▸ hb.rate, hb.nonneg.trans hfill.adds, ?_, ?_⟩, hfill.rate,
      hfill.burst, hfill.le_last, hfill.set, ?_⟩
    · rw [hfill.burst]
      exact hfill.le_burst
    · exact fun hzero => absurd hzero hfill.set
    · rw [if_neg Bool.false_ne_true, zero_add]
      exact hfill.gain
  · have htake : 0 ≤ min call.n b.burst := le_min hn hburst
    have hthere : min call.n b.burst ≤ (b.refillBy elapsed call.now).tokens :=
      hfill.burst ▸ not_lt.mp hshort
    rw [if_neg hshort, hfill.burst]
    refine ⟨⟨hfill.rate ▸ hb.rate, sub_nonneg.mpr hthere, ?_, ?_⟩, hfill.rate, hfill.burst,
      hfill.le_last, hfill.set, ?_⟩
    · exact ((sub_le_self _ htake).trans hfill.le_burst).trans_eq hfill.burst.symm
    · exact fun hzero => absurd hzero hfill.set
    · rw [if_pos rfl, add_sub_cancel]
      exact hfill.gain

/-- Time enough to fill the whole depth lets any request through. -/
theorem Bucket.Metered.admits (hb : b.Metered) (helapsed : Elapses elapsed)
    (hwait : b.burst / b.rate ≤ elapsed now b.last) (n : Rat) :
    (b.allowNBy elapsed now n).1 = true := by
  have hfull : (b.refillBy elapsed now).tokens = (b.refillBy elapsed now).burst := by
    by_cases hlast : b.last = 0
    · rw [helapsed.refillBy_unset hlast]
      exact hb.fresh hlast
    · have hdepth : b.burst ≤ elapsed now b.last * b.rate := (div_le_iff₀ hb.rate).mp hwait
      rcases Nat.lt_or_ge b.last now with hlater | hstale
      · rw [helapsed.refillBy_later hlast hlater]
        exact min_eq_right (hdepth.trans (le_add_of_nonneg_left hb.nonneg))
      · have hnone : elapsed now b.last ≤ 0 :=
          not_lt.mp fun hpos => Nat.not_lt_of_le hstale (helapsed.pos_iff.mp hpos)
        have hshallow : b.burst ≤ 0 :=
          hdepth.trans (mul_nonpos_of_nonpos_of_nonneg hnone hb.rate.le)
        rw [helapsed.refillBy_stale hlast hstale]
        exact le_antisymm hb.le_burst (hshallow.trans hb.nonneg)
  rw [hb.allowNBy_eq, hfull, if_neg (not_lt_of_ge (min_le_right _ _))]

end Steps

section Account

variable {elapsed : Time → Time → Rat} {b : Bucket} {calls : List BucketCall}

theorem Bucket.since_of_set (hset : b.last ≠ 0) (calls : List BucketCall) :
    b.since calls = b.last := by
  cases calls with
  | nil => rfl
  | cons call rest => exact if_neg hset

/-- What a sequence of requests does to the account, request by request. -/
theorem Bucket.Metered.run (hb : b.Metered) (helapsed : Elapses elapsed)
    (hcalls : ∀ call ∈ calls, call.Fits) :
    (b.runBy elapsed calls).Metered ∧ (b.runBy elapsed calls).rate = b.rate ∧
      (b.runBy elapsed calls).burst = b.burst ∧ b.last ≤ (b.runBy elapsed calls).last ∧
      b.admittedBy elapsed calls + (b.runBy elapsed calls).tokens ≤
        b.tokens + b.rate *
          (seconds (b.runBy elapsed calls).last - seconds (b.since calls)) := by
  induction calls generalizing b with
  | nil =>
      refine ⟨hb, rfl, rfl, le_refl _, ?_⟩
      rw [Bucket.admittedBy, Bucket.runBy, Bucket.since, sub_self, mul_zero, zero_add, add_zero]
  | cons call rest ih =>
      obtain ⟨hfirst, hrest⟩ := List.forall_mem_cons.mp hcalls
      have hstep := hb.charged helapsed hfirst
      obtain ⟨hmetered, hrate, hburst, hlast, haccount⟩ := ih hstep.metered hrest
      rw [Bucket.since_of_set hstep.set, hstep.rate] at haccount
      refine ⟨hmetered, hrate.trans hstep.rate, hburst.trans hstep.burst,
        hstep.le_last.trans hlast, ?_⟩
      have hnow := hstep.account
      rw [Bucket.admittedBy, Bucket.runBy, Bucket.since]
      linarith

theorem newBucket_make {rate : Rat} (hrate : 0 < rate) (burst : Rat) :
    (newBucket rate burst).rate = rate ∧ (newBucket rate burst).burst = max rate burst := by
  rw [newBucket, if_neg (not_le_of_gt hrate)]
  split
  · rename_i hshallow
    exact ⟨rfl, (max_eq_left hshallow.le).symm⟩
  · rename_i hdeep
    exact ⟨rfl, (max_eq_right (not_lt.mp hdeep)).symm⟩

/-- The bucket is a faithful one.  After any requests it holds between nothing and its
depth, `last` only moves forward, any further requests take no more than what is there
and what the advance of `last` is worth, and whoever waits for the depth to fill is let
through, whatever the size. -/
theorem bucket_faithful (helapsed : elapsed = exactSeconds ∨ elapsed = elapsedSeconds)
    {rate : Rat} (hrate : 0 < rate) (burst : Rat) (before run : List BucketCall)
    (hbefore : ∀ call ∈ before, call.now ≠ 0 ∧ 0 ≤ call.n)
    (hrun : ∀ call ∈ run, call.now ≠ 0 ∧ 0 ≤ call.n) :
    let start := (newBucket rate burst).runBy elapsed before
    let stop := start.runBy elapsed run
    start.burst = max rate burst ∧ 0 ≤ start.tokens ∧ start.tokens ≤ start.burst ∧
      start.last ≤ stop.last ∧
      start.admittedBy elapsed run ≤
        start.tokens + rate * (seconds stop.last - seconds (start.since run)) ∧
      ∀ (now : Time) (n : Rat), start.burst / rate ≤ elapsed now start.last →
        (start.allowNBy elapsed now n).1 = true := by
  intro start stop
  have hreads : Elapses elapsed := by
    rcases helapsed with rfl | rfl
    · exact exactSeconds_elapses
    · exact elapsedSeconds_elapses
  obtain ⟨hmake, hdepth⟩ := newBucket_make hrate burst
  obtain ⟨hstart, hkept, hburst, -, -⟩ := (newBucket_metered hrate burst).run hreads hbefore
  obtain ⟨hstop, -, -, hlast, haccount⟩ := hstart.run hreads hrun
  rw [hmake] at hkept
  rw [hkept] at haccount
  refine ⟨hburst.trans hdepth, hstart.nonneg, hstart.le_burst, hlast, ?_, ?_⟩
  · have hleft := hstop.nonneg
    linarith
  · intro now n hwait
    exact hstart.admits hreads (hkept.symm ▸ hwait) n

end Account

/-- Drained at two seconds, then asked at one: what is left goes, and no more. -/
theorem bucket_faithful_sample :
    ((newBucket 2 5).runBy exactSeconds [⟨2000000000, 4⟩]).admittedBy exactSeconds
      [⟨1000000000, 1⟩, ⟨1000000000, 1⟩] ≤ 1 := by
  have haccount := (bucket_faithful (Or.inl rfl) (show (0 : Rat) < 2 by norm_num) 5
    [⟨2000000000, 4⟩] [⟨1000000000, 1⟩, ⟨1000000000, 1⟩] (by simp) (by simp)).2.2.2.2.1
  have hgain : ((newBucket 2 5).runBy exactSeconds [⟨2000000000, 4⟩]) = ⟨2, 5, 1, 2000000000⟩ ∧
      (Bucket.runBy exactSeconds ⟨2, 5, 1, 2000000000⟩
        [⟨1000000000, 1⟩, ⟨1000000000, 1⟩]).last = 2000000000 := by decide +kernel
  rw [hgain.1, hgain.2, Bucket.since_of_set (by decide), sub_self, mul_zero, add_zero] at haccount
  rw [hgain.1]
  exact haccount

end ShardProxy
