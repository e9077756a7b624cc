/-
Token buckets.  A level is refilled in proportion to the time that has passed, up
to a cap, and drawn on by whatever is admitted.  What can be drawn in a window of
time is bounded by the cap and the rate, and a level refilled in two goes is the
level refilled in one.
-/
import Mathlib.Algebra.Order.Field.Basic
import Mathlib.Tactic.Linarith
import Mathlib.Tactic.Ring

namespace TokenBucket

variable {K : Type} [Field K] [LinearOrder K]

/-- A level after some gain, up to the cap. -/
def fill (cap level gain : K) : K :=
  min (level + gain) cap

theorem fill_le_cap (cap level gain : K) : fill cap level gain ≤ cap :=
  min_le_right _ _

theorem fill_le_add (cap level gain : K) : fill cap level gain ≤ level + gain :=
  min_le_left _ _

/-- What a bucket holds, and when it was last looked at. -/
structure Level (K : Type) where
  tokens : K
  stamp : K

/-- Draws on a bucket, one after the other.  A draw finds no more than the refill has
made of the level, and leaves the rest; an instant may also pass without one. -/
inductive Metered (cap rate : K) : Level K → List (K × K) → Prop where
  | nil (s : Level K) : Metered cap rate s []
  | idle {s : Level K} {now : K} {rest : List (K × K)} (hrest : Metered cap rate s rest) :
      Metered cap rate s ((now, 0) :: rest)
  | draw {s s' : Level K} {now cost : K} {rest : List (K × K)} (hnow : s.stamp ≤ now)
      (hstamp : s'.stamp = now) (hleft : 0 ≤ s'.tokens) (hcost : 0 ≤ cost)
      (hlevel : s'.tokens + cost ≤ fill cap s.tokens (rate * (now - s.stamp)))
      (hrest : Metered cap rate s' rest) : Metered cap rate s ((now, cost) :: rest)

/-- What is drawn from `lo` to `hi`. -/
def drawn (lo hi : K) : List (K × K) → K
  | [] => 0
  | (now, cost) :: rest => (if lo ≤ now ∧ now ≤ hi then cost else 0) + drawn lo hi rest

variable {cap rate lo hi : K} {s : Level K} {draws : List (K × K)}

/-- Nothing is drawn up to `hi` by draws that come later. -/
theorem drawn_of_late (hlate : ∀ draw ∈ draws, hi < draw.1) : drawn lo hi draws = 0 := by
  induction draws with
  | nil => rfl
  | cons draw rest ih =>
      obtain ⟨hfirst, hrest⟩ := List.forall_mem_cons.mp hlate
      rw [drawn, ih hrest, if_neg (fun hwindow => not_le_of_gt hfirst hwindow.2), add_zero]

omit [Field K] in
theorem late_of_sorted {now cost : K} (hlate : hi < now)
    (hsorted : (((now, cost) :: draws).map Prod.fst).Pairwise (· ≤ ·)) :
    ∀ draw ∈ (now, cost) :: draws, hi < draw.1 := by
  intro draw hdraw
  rcases List.mem_cons.mp hdraw with rfl | hmem
  · exact hlate
  · exact lt_of_lt_of_le hlate
      ((List.pairwise_cons.mp hsorted).1 _ (List.mem_map_of_mem hmem))

variable [IsStrictOrderedRing K]

theorem fill_mono {low high less more : K} (hlevel : low ≤ high) (hgain : less ≤ more) :
    fill cap low less ≤ fill cap high more :=
  min_le_min_right cap (add_le_add hlevel hgain)

theorem fill_fill {more : K} (cap level gain : K) (hmore : 0 ≤ more) :
    fill cap (fill cap level gain) more = fill cap level (gain + more) := by
  rcases le_total (level + gain) cap with hunder | hover
  · rw [fill, fill, min_eq_left hunder, fill, add_assoc]
  · have htotal : cap ≤ level + (gain + more) := by linarith
    rw [fill, fill, min_eq_right hover, fill, min_eq_right htotal,
      min_eq_right (le_add_of_nonneg_right hmore)]

/-- From a level on, what is drawn is there or comes in meanwhile. -/
theorem Metered.drawn_le (hmetered : Metered cap rate s draws) (hrate : 0 ≤ rate)
    (hsorted : (draws.map Prod.fst).Pairwise (· ≤ ·)) (htokens : 0 ≤ s.tokens)
    (hstamp : s.stamp ≤ hi) :
    drawn lo hi draws ≤ s.tokens + rate * (hi - s.stamp) := by
  have hgain : 0 ≤ rate * (hi - s.stamp) := mul_nonneg hrate (sub_nonneg.mpr hstamp)
  induction hmetered with
  | nil s =>
      rw [drawn]
      linarith
  | idle _ ih =>
      rw [drawn, ite_self, zero_add]
      exact ih (List.pairwise_cons.mp hsorted).2 htokens hstamp hgain
  | @draw s s' now cost rest hnow hnext hleft hcost hlevel _ ih =>
      rcases lt_or_ge hi now with hlate | hin
      · rw [drawn_of_late (late_of_sorted hlate hsorted)]
        linarith
      · have hremain : 0 ≤ rate * (hi - s'.stamp) :=
          mul_nonneg hrate (sub_nonneg.mpr (hnext ▸ hin))
        have htail := ih (List.pairwise_cons.mp hsorted).2 hleft (hnext ▸ hin) hremain
        have htotal := hlevel.trans (fill_le_add _ _ _)
        have hcounted : (if lo ≤ now ∧ now ≤ hi then cost else 0) ≤ cost := by
          split
          · exact le_refl cost
          · exact hcost
        calc drawn lo hi ((now, cost) :: rest)
            ≤ cost + (s'.tokens + rate * (hi - s'.stamp)) := add_le_add hcounted htail
          _ ≤ s.tokens + rate * (now - s.stamp) + rate * (hi - now) := by rw [hnext]; linarith
          _ = s.tokens + rate * (hi - s.stamp) := by ring

/-- In a window no more is drawn than a full bucket and what comes in meanwhile. -/
theorem Metered.window_le (hmetered : Metered cap rate s draws) (hrate : 0 ≤ rate)
    (hcap : 0 ≤ cap) (hsorted : (draws.map Prod.fst).Pairwise (· ≤ ·)) (hwindow : lo ≤ hi) :
    drawn lo hi draws ≤ cap + rate * (hi - lo) := by
  have hgain : 0 ≤ rate * (hi - lo) := mul_nonneg hrate (sub_nonneg.mpr hwindow)
  induction hmetered with
  | nil s =>
      rw [drawn]
      linarith
  | idle _ ih =>
      rw [drawn, ite_self, zero_add]
      exact ih (List.pairwise_cons.mp hsorted).2
  | @draw s s' now cost rest hnow hnext hleft hcost hlevel hrest ih =>
      have hlater := (List.pairwise_cons.mp hsorted).2
      rcases lt_or_ge hi now with hlate | hin
      · rw [drawn_of_late (late_of_sorted hlate hsorted)]
        linarith
      · rcases lt_or_ge now lo with hearly | hopen
        · rw [drawn, if_neg (fun hboth => not_le_of_gt hearly hboth.1), zero_add]
          exact ih hlater
        · have htail : drawn lo hi rest ≤ _ := hrest.drawn_le hrate hlater hleft (hnext ▸ hin)
          have htotal := hlevel.trans (fill_le_cap _ _ _)
          have hspan : rate * (hi - now) ≤ rate * (hi - lo) :=
            mul_le_mul_of_nonneg_left (sub_le_sub_left hopen hi) hrate
          rw [drawn, if_pos ⟨hopen, hin⟩]
          rw [hnext] at htail
          linarith

/-- One draw at a bucket whose callers read the clock each for themselves.  A reading no
later than the stamp refills nothing. -/
inductive Draw (cap rate : K) (s : Level K) (now cost : K) (s' : Level K) : Prop where
  | stale (hnow : now ≤ s.stamp) (hstamp : s'.stamp = s.stamp)
      (hlevel : s'.tokens + cost ≤ s.tokens)
  | later (hnow : s.stamp ≤ now) (hstamp : s'.stamp = now)
      (hlevel : s'.tokens + cost ≤ fill cap s.tokens (rate * (now - s.stamp)))

/-- What a bucket has given since some moment, to callers who all read the clock between
`lo` and `hi`.  Up to the first of them it may have been idle for any time, and before the
moment it may have been asked by a clock that is ahead of `hi`. -/
structure GivenSince (cap rate lo hi : K) (s : Level K) (total : K) : Prop where
  untouched : s.stamp < lo → total = 0
  capped : s.stamp < lo ∨ hi < s.stamp → s.tokens + total ≤ cap
  accrued : lo ≤ s.stamp → s.stamp ≤ hi → s.tokens + total ≤ cap + rate * (s.stamp - lo)

theorem GivenSince.start (hrate : 0 ≤ rate) (htokens : s.tokens ≤ cap) :
    GivenSince cap rate lo hi s 0 := by
  refine ⟨fun _ => rfl, fun _ => (add_zero _).trans_le htokens, fun hlo _ => ?_⟩
  have hgain : 0 ≤ rate * (s.stamp - lo) := mul_nonneg hrate (sub_nonneg.mpr hlo)
  linarith

/-- A draw in the window adds what it gives, in whatever order the readings come. -/
theorem GivenSince.draw {s' : Level K} {now cost total : K} (hrate : 0 ≤ rate)
    (hgiven : GivenSince cap rate lo hi s total) (hdraw : Draw cap rate s now cost s')
    (hlo : lo ≤ now) (hhi : now ≤ hi) : GivenSince cap rate lo hi s' (total + cost) := by
  cases hdraw with
  | stale hnow hstamp hlevel =>
      have hopen : lo ≤ s.stamp := hlo.trans hnow
      refine ⟨fun hearly => ?_, fun hout => ?_, fun _ hin => ?_⟩
      · exact absurd (hstamp ▸ hearly) (not_lt_of_ge hopen)
      · rw [hstamp] at hout
        have hcapped := hgiven.capped hout
        linarith
      · rw [hstamp] at hin ⊢
        have haccrued := hgiven.accrued hopen hin
        linarith
  | later hnow hstamp hlevel =>
      refine ⟨fun hearly => ?_, fun hout => ?_, fun _ _ => ?_⟩
      · exact absurd (hstamp ▸ hearly) (not_lt_of_ge hlo)
      · rw [hstamp] at hout
        exact (hout.elim (not_lt_of_ge hlo) (not_lt_of_ge hhi)).elim
      · rw [hstamp]
        rcases lt_or_ge s.stamp lo with hidle | hopen
        · -- idle until now: nothing is given yet, and the refill stops at the cap
          have hgain : 0 ≤ rate * (now - lo) := mul_nonneg hrate (sub_nonneg.mpr hlo)
          have hfull := hlevel.trans (fill_le_cap _ _ _)
          rw [hgiven.untouched hidle]
          linarith
        · have haccrued := hgiven.accrued hopen (hnow.trans hhi)
          have hrefill := hlevel.trans (fill_le_add _ _ _)
          have hspan : rate * (s.stamp - lo) + rate * (now - s.stamp) = rate * (now - lo) := by ring
          linarith

/-- In a window no more is given than a full bucket and what comes in meanwhile. -/
theorem GivenSince.total_le {total : K} (hgiven : GivenSince cap rate lo hi s total)
    (hrate : 0 ≤ rate) (htokens : 0 ≤ s.tokens) (hwindow : lo ≤ hi) :
    total ≤ cap + rate * (hi - lo) := by
  have hgain : 0 ≤ rate * (hi - lo) := mul_nonneg hrate (sub_nonneg.mpr hwindow)
  by_cases hout : s.stamp < lo ∨ hi < s.stamp
  · have hcapped := hgiven.capped hout
    linarith
  · obtain ⟨hopen, hin⟩ := not_or.mp hout
    have haccrued := hgiven.accrued (not_lt.mp hopen) (not_lt.mp hin)
    have hspan : rate * (s.stamp - lo) ≤ rate * (hi - lo) :=
      mul_le_mul_of_nonneg_left (sub_le_sub_right (not_lt.mp hin) lo) hrate
    linarith

end TokenBucket
