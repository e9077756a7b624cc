/-
The drain loops of the egress.  `writeBatchAll` submits what is left of a batch until
an error or a standstill, `flushReliable` tries again after either, and `FlushVia`
hands a sink one message at a time.  Whatever the writers answer, each loop offers
exactly what is left, and the reliable ones give up only after a hard error or a
full budget of attempts that moved nothing.
-/
import ShardProxy.Egress
import ShardProxy.Lib.Drain

namespace ShardProxy

open ByteField Drain

/-- What `EgressWriteFunc` answers for one target, by the messages it was handed before. -/
abbrev ViaSink : Type := List (List Message) → Message → Option WriteError

/-- The loop of `FlushVia` from some point on.  On the reliable lane a message that failed is
tried again, with a budget of its own. -/
def viaLoop (f : ViaSink) (reliable : Bool) (past : List (List Message)) (ms : List Message)
    (attempts : Nat) : Drained :=
  match ms with
  | [] => ⟨[], 0, none⟩
  | m :: rest =>
      match f past m with
      | none =>
          let drained := viaLoop f reliable (past ++ [[m]]) rest 0
          ⟨[m] :: drained.calls, 1 + drained.sent, drained.err⟩
      | some err =>
          if _hlast : !reliable ∨ maxReliableRetries ≤ attempts then ⟨[[m]], 0, some err⟩
          else
            let drained := viaLoop f reliable (past ++ [[m]]) (m :: rest) (attempts + 1)
            ⟨[m] :: drained.calls, drained.sent, drained.err⟩
termination_by (ms.length, maxReliableRetries - attempts)
decreasing_by
  · exact Prod.Lex.left _ _ (Nat.lt_succ_self _)
  · apply Prod.Lex.right
    omega

/-- How many messages a call of a writer takes. -/
def takenBy (w : BatchWriter) (past : List (List Message)) (offered : List Message) : Nat :=
  clampSent (w past offered).1 offered.length

/-- A sink is handed one message, and takes it if it does not fail. -/
def viaTaken (f : ViaSink) (past : List (List Message)) (offered : List Message) : Nat :=
  match offered with
  | [] => 0
  | m :: _ => if f past m = none then 1 else 0

/-- A sink's answer to a call. -/
def viaReply (f : ViaSink) (past : List (List Message)) (offered : List Message) :
    Option WriteError :=
  offered.head?.bind (f past)

theorem clampSent_le (count : Int) (handed : Nat) : clampSent count handed ≤ handed := by
  rw [clampSent]
  split_ifs <;> omega

theorem takenBy_orderly (w : BatchWriter) : Orderly (takenBy w) id :=
  ⟨fun past offered => clampSent_le (w past offered).1 offered.length,
    fun queue => List.prefix_refl queue⟩

theorem viaTaken_orderly (f : ViaSink) : Orderly (viaTaken f) (List.take 1) where
  took_le past offered := by
    cases offered with
    | nil => exact Nat.le_refl 0
    | cons m rest =>
        rw [viaTaken, List.length_cons]
        split_ifs <;> omega
  offer_front queue := List.take_prefix 1 queue

section Batches

/-- `writeBatchAll`, by what stops it. -/
inductive WriteRun (w : BatchWriter) :
    List (List Message) → List Message → Drained → Prop where
  | empty (past : List (List Message)) : WriteRun w past [] ⟨[], 0, none⟩
  | error {past : List (List Message)} {ms : List Message} {err : WriteError} (hms : ms ≠ [])
      (herr : (w past ms).2 = some err) :
      WriteRun w past ms ⟨[ms], takenBy w past ms, some err⟩
  | stuck {past : List (List Message)} {ms : List Message} (hms : ms ≠ [])
      (hnone : (w past ms).2 = none) (hstuck : (w past ms).1 ≤ 0) :
      WriteRun w past ms ⟨[ms], 0, some .noBatchProgress⟩
  | moved {past : List (List Message)} {ms : List Message} {d : Drained} (hms : ms ≠ [])
      (hnone : (w past ms).2 = none) (hmoved : 0 < (w past ms).1)
      (hrest : WriteRun w (past ++ [ms]) (ms.drop (takenBy w past ms)) d) :
      WriteRun w past ms ⟨ms :: d.calls, takenBy w past ms + d.sent, d.err⟩

theorem takenBy_pos {w : BatchWriter} {past : List (List Message)} {ms : List Message}
    (hms : ms ≠ []) (hmoved : 0 < (w past ms).1) : 0 < takenBy w past ms :=
  clampSent_pos hmoved (List.length_pos_iff.mpr hms)

theorem takenBy_of_stuck {w : BatchWriter} {past : List (List Message)} {ms : List Message}
    (hstuck : (w past ms).1 ≤ 0) : takenBy w past ms = 0 :=
  if_neg (Int.not_lt.mpr hstuck)

theorem writeBatchAll_run (w : BatchWriter) (past : List (List Message)) (ms : List Message) :
    WriteRun w past ms (writeBatchAll w past ms) := by
  induction hsize : ms.length using Nat.strong_induction_on generalizing past ms with
  | _ size ih =>
      subst hsize
      unfold writeBatchAll
      by_cases hms : ms = []
      · subst hms
        exact .empty past
      · rw [dif_neg hms]
        cases hreply : (w past ms).2 with
        | some err =>
            simp only [hreply]
            exact .error hms hreply
        | none =>
            simp only [hreply]
            by_cases hstuck : (w past ms).1 ≤ 0
            · rw [dif_pos hstuck]
              exact .stuck hms hreply hstuck
            · have hmoved : 0 < (w past ms).1 := Int.lt_of_not_ge hstuck
              have htaken := takenBy_pos hms hmoved
              have hlength := List.length_pos_iff.mpr hms
              rw [dif_neg hstuck]
              refine .moved hms hreply hmoved (ih _ ?_ _ _ rfl)
              rw [List.length_drop]
              omega

variable {w : BatchWriter} {past : List (List Message)} {ms : List Message} {d : Drained}

theorem WriteRun.trace (hrun : WriteRun w past ms d) :
    Trace (takenBy w) id past ms d.calls d.sent := by
  induction hrun with
  | empty past => exact .stop past []
  | error hms herr => exact .call (.stop _ _)
  | @stuck past ms hms hnone hstuck =>
      have hcall : Trace (takenBy w) id past ms [ms] (takenBy w past ms + 0) :=
        .call (.stop _ _)
      rw [takenBy_of_stuck hstuck] at hcall
      exact hcall
  | moved hms hnone hmoved _ ih => exact .call ih

theorem WriteRun.complete (hrun : WriteRun w past ms d) (hnone : d.err = none) :
    d.sent = ms.length := by
  induction hrun with
  | empty past => rfl
  | error hms herr => cases hnone
  | stuck hms hreply hstuck => cases hnone
  | @moved past ms d hms hreply hmoved hrest ih =>
      have hle : takenBy w past ms ≤ ms.length := (takenBy_orderly w).took_le past ms
      have hleft := ih hnone
      rw [List.length_drop] at hleft
      simp only [hleft]
      omega

/-- A call takes a message, but perhaps the last. -/
theorem WriteRun.few (hrun : WriteRun w past ms d) :
    d.calls.length ≤ d.sent + 1 ∧ (d.sent = ms.length → d.calls.length ≤ d.sent) := by
  induction hrun with
  | empty past => exact ⟨Nat.zero_le _, fun _ => Nat.le_refl _⟩
  | error hms herr =>
      have hlength := List.length_pos_iff.mpr hms
      simp only [List.length_cons, List.length_nil]
      exact ⟨by omega, by omega⟩
  | stuck hms hreply hstuck =>
      have hlength := List.length_pos_iff.mpr hms
      simp only [List.length_cons, List.length_nil]
      exact ⟨by omega, by omega⟩
  | @moved past ms d hms hreply hmoved hrest ih =>
      have htaken := takenBy_pos hms hmoved
      have hle : takenBy w past ms ≤ ms.length := (takenBy_orderly w).took_le past ms
      obtain ⟨hfew, hfewer⟩ := ih
      rw [List.length_drop] at hfewer
      simp only [List.length_cons]
      exact ⟨by omega, fun hall => by have := hfewer (by omega); omega⟩

/-- A batch that is not taken at all is refused by one call. -/
theorem WriteRun.refused (hrun : WriteRun w past ms d) (hms : ms ≠ []) (hsent : d.sent = 0) :
    ∃ reply, replies w past d.calls = [reply] ∧ reply.1 ≤ 0 ∧
      isHardSendErr reply.2 = isHardSendErr d.err := by
  cases hrun with
  | empty past => exact absurd rfl hms
  | error hms herr =>
      have hcount : (w past ms).1 ≤ 0 := by
        by_contra hmoved
        have htaken := takenBy_pos hms (Int.lt_of_not_ge hmoved)
        exact absurd hsent (Nat.ne_of_gt htaken)
      exact ⟨_, rfl, hcount, by rw [herr]⟩
  | stuck hms hreply hstuck =>
      exact ⟨_, rfl, hstuck, by rw [hreply]; rfl⟩
  | moved hms hreply hmoved hrest =>
      have htaken := takenBy_pos hms hmoved
      simp only at hsent
      omega

theorem WriteRun.hard (hrun : WriteRun w past ms d) (hhard : isHardSendErr d.err = true) :
    ∃ before reply, replies w past d.calls = before ++ [reply] ∧
      isHardSendErr reply.2 = true := by
  induction hrun with
  | empty past => cases hhard
  | error hms herr => exact ⟨[], _, rfl, by rw [herr]; exact hhard⟩
  | stuck hms hreply hstuck => cases hhard
  | moved hms hreply hmoved hrest ih =>
      obtain ⟨before, reply, hreplies, hlast⟩ := ih hhard
      exact ⟨_ :: before, reply, congrArg (_ :: ·) hreplies, hlast⟩

end Batches

/-- The writer took something and nothing is left. -/
def TookAll (tried : Drained) (ms : List Message) : Prop :=
  0 < tried.sent ∧ ms.drop tried.sent = []

section Reliable

/-- The loop of `flushReliable`, by what stops it. -/
inductive FlushRun (w : BatchWriter) :
    List (List Message) → List Message → Nat → Drained → Prop where
  | empty (past : List (List Message)) (attempts : Nat) : FlushRun w past [] attempts ⟨[], 0, none⟩
  | all {past : List (List Message)} {ms : List Message} {attempts : Nat} {tried : Drained}
      (hms : ms ≠ []) (htried : WriteRun w past ms tried) (hall : TookAll tried ms) :
      FlushRun w past ms attempts ⟨tried.calls, tried.sent, none⟩
  | hard {past : List (List Message)} {ms : List Message} {attempts : Nat} {tried : Drained}
      (hms : ms ≠ []) (htried : WriteRun w past ms tried) (hleft : ¬ TookAll tried ms)
      (hhard : isHardSendErr tried.err = true) :
      FlushRun w past ms attempts ⟨tried.calls, tried.sent, tried.err⟩
  | spent {past : List (List Message)} {ms : List Message} {attempts : Nat} {tried : Drained}
      (hms : ms ≠ []) (htried : WriteRun w past ms tried) (hleft : ¬ TookAll tried ms)
      (hsoft : isHardSendErr tried.err = false)
      (hspent : maxReliableRetries ≤ retriesSpent tried.sent attempts) :
      FlushRun w past ms attempts
        ⟨tried.calls, tried.sent, some (tried.err.getD .noBatchProgress)⟩
  | again {past : List (List Message)} {ms : List Message} {attempts : Nat} {tried d : Drained}
      (hms : ms ≠ []) (htried : WriteRun w past ms tried) (hleft : ¬ TookAll tried ms)
      (hsoft : isHardSendErr tried.err = false)
      (hspent : retriesSpent tried.sent attempts < maxReliableRetries)
      (hrest : FlushRun w (past ++ tried.calls) (ms.drop tried.sent)
        (retriesSpent tried.sent attempts + 1) d) :
      FlushRun w past ms attempts ⟨tried.calls ++ d.calls, tried.sent + d.sent, d.err⟩

theorem flushLoop_run (w : BatchWriter) (past : List (List Message)) (ms : List Message)
    (attempts : Nat) : FlushRun w past ms attempts (flushLoop w past ms attempts) := by
  induction past, ms, attempts using flushLoop.induct w with
  | case1 past attempts =>
      unfold flushLoop
      exact .empty past attempts
  | case2 past ms attempts hms tried hall =>
      unfold flushLoop
      rw [dif_neg hms, if_pos hall]
      exact .all hms (writeBatchAll_run w past ms) hall
  | case3 past ms attempts hms tried hleft hhard =>
      unfold flushLoop
      rw [dif_neg hms, if_neg hleft, if_pos hhard]
      exact .hard hms (writeBatchAll_run w past ms) hleft hhard
  | case4 past ms attempts hms tried spent hleft hsoft hspent =>
      unfold flushLoop
      rw [dif_neg hms, if_neg hleft, if_neg hsoft, dif_pos hspent]
      exact .spent hms (writeBatchAll_run w past ms) hleft (Bool.eq_false_iff.mpr hsoft) hspent
  | case5 past ms attempts hms tried spent hleft hsoft hspent ih =>
      unfold flushLoop
      rw [dif_neg hms, if_neg hleft, if_neg hsoft, dif_neg hspent]
      exact .again hms (writeBatchAll_run w past ms) hleft (Bool.eq_false_iff.mpr hsoft)
        (Nat.lt_of_not_le hspent) ih

variable {w : BatchWriter} {past : List (List Message)} {ms : List Message} {attempts : Nat}
variable {d : Drained}

theorem FlushRun.trace (hrun : FlushRun w past ms attempts d) :
    Trace (takenBy w) id past ms d.calls d.sent := by
  induction hrun with
  | empty past attempts => exact .stop past []
  | all hms htried hall => exact htried.trace
  | hard hms htried hleft hhard => exact htried.trace
  | spent hms htried hleft hsoft hspent => exact htried.trace
  | again hms htried hleft hsoft hspent hrest ih => exact htried.trace.append ih

/-- What is left after a try that did not take everything is less than what there was. -/
theorem WriteRun.sent_lt {tried : Drained} (htried : WriteRun w past ms tried) (hms : ms ≠ [])
    (hleft : ¬ TookAll tried ms) : tried.sent < ms.length := by
  have hle := (htried.trace.accepted_eq (takenBy_orderly w)).2
  have hlength := List.length_pos_iff.mpr hms
  by_contra hall
  exact hleft ⟨by omega, List.drop_eq_nil_of_le (by omega)⟩

/-- The budget: a message costs at most one call that takes it and as many as there are
retries that do not. -/
theorem FlushRun.calls_le (hrun : FlushRun w past ms attempts d) (hms : ms ≠ [])
    (hattempts : attempts ≤ maxReliableRetries) :
    d.calls.length + attempts ≤ (maxReliableRetries + 1) * ms.length := by
  rw [maxReliableRetries] at *
  induction hrun with
  | empty past attempts => exact absurd rfl hms
  | @all past ms attempts tried _ htried hall =>
      have hle := (htried.trace.accepted_eq (takenBy_orderly w)).2
      have hend := List.drop_eq_nil_iff.mp hall.2
      have hfew := htried.few.2 (Nat.le_antisymm hle hend)
      have hlength := List.length_pos_iff.mpr hms
      simp only
      omega
  | @hard past ms attempts tried _ htried hleft hhard =>
      have hlt := htried.sent_lt hms hleft
      have hfew := htried.few.1
      simp only
      omega
  | @spent past ms attempts tried _ htried hleft hsoft hspent =>
      have hlt := htried.sent_lt hms hleft
      have hfew := htried.few.1
      simp only
      omega
  | @again past ms attempts tried d _ htried hleft hsoft hspent hrest ih =>
      have hlt := htried.sent_lt hms hleft
      have hfew := htried.few.1
      have hmore : ms.drop tried.sent ≠ [] := by
        rw [ne_eq, List.drop_eq_nil_iff]
        omega
      have hrest' := ih hmore hspent
      rw [List.length_drop, retriesSpent] at hrest'
      rw [List.length_append]
      split_ifs at hrest' with hmoved
      · omega
      · omega

/-- A drain that met an error no retry helps with. -/
def HardStop (answers : List (Int × Option WriteError)) : Prop :=
  ∃ before last, answers = before ++ [last] ∧ isHardSendErr last.2 = true

theorem HardStop.append {answers : List (Int × Option WriteError)} (hstop : HardStop answers)
    (earlier : List (Int × Option WriteError)) : HardStop (earlier ++ answers) := by
  obtain ⟨before, last, rfl, hhard⟩ := hstop
  exact ⟨earlier ++ before, last, (List.append_assoc _ _ _).symm, hhard⟩

/-- An answer that took nothing, with an error that may pass or none. -/
def Stalled (reply : Int × Option WriteError) : Prop :=
  reply.1 ≤ 0 ∧ isHardSendErr reply.2 = false

/-- A reliable drain that leaves something has met a hard error, or has stalled for the whole
budget. -/
theorem FlushRun.gives_up (hrun : FlushRun w past ms attempts d) (hunsent : d.sent < ms.length) :
    HardStop (replies w past d.calls) ∨
      ∃ before stalled, replies w past d.calls = before ++ stalled ∧
        (∀ reply ∈ stalled, Stalled reply) ∧
        (before = [] ∧ maxReliableRetries < attempts + stalled.length ∨
          maxReliableRetries ≤ stalled.length) := by
  induction hrun with
  | empty past attempts => exact absurd hunsent (Nat.not_lt_zero _)
  | all hms htried hall =>
      have hend := List.drop_eq_nil_iff.mp hall.2
      exact absurd hunsent (Nat.not_lt.mpr hend)
  | hard hms htried hleft hhard => exact Or.inl (htried.hard hhard)
  | @spent past ms attempts tried hms htried hleft hsoft hspent =>
      -- Only a try that took nothing can find the budget spent.
      have hnone : tried.sent = 0 := by
        by_contra hmoved
        rw [retriesSpent, if_pos (Nat.pos_of_ne_zero hmoved)] at hspent
        exact absurd hspent (by decide)
      obtain ⟨reply, hreplies, hcount, hsame⟩ := htried.refused hms hnone
      rw [retriesSpent, hnone, if_neg (Nat.lt_irrefl 0)] at hspent
      refine Or.inr ⟨[], [reply], hreplies, ?_, Or.inl ⟨rfl, ?_⟩⟩
      · intro other hother
        rw [List.mem_singleton.mp hother]
        exact ⟨hcount, hsame.trans hsoft⟩
      · rw [List.length_singleton]
        omega
  | @again past ms attempts tried d hms htried hleft hsoft hspent hrest ih =>
      have hlt := htried.sent_lt hms hleft
      have hleftover : d.sent < (ms.drop tried.sent).length := by
        rw [List.length_drop]
        simp only at hunsent
        omega
      rw [replies_append]
      rcases ih hleftover with hhard | ⟨before, stalled, hreplies, hstalled, hbudget⟩
      · exact Or.inl (hhard.append _)
      · right
        rcases hbudget with ⟨rfl, hfromStart⟩ | hlong
        · rcases Nat.eq_zero_or_pos tried.sent with hnone | hmoved
          · -- Nothing was taken here either: the stall began earlier.
            obtain ⟨reply, hfirst, hcount, hsame⟩ := htried.refused hms hnone
            rw [retriesSpent, hnone, if_neg (Nat.lt_irrefl 0)] at hfromStart
            refine ⟨[], reply :: stalled, by rw [hfirst, hreplies]; rfl, ?_, Or.inl ⟨rfl, ?_⟩⟩
            · intro other hother
              rcases List.mem_cons.mp hother with rfl | hlater
              · exact ⟨hcount, hsame.trans hsoft⟩
              · exact hstalled other hlater
            · rw [List.length_cons]
              omega
          · rw [retriesSpent, if_pos hmoved] at hfromStart
            refine ⟨replies w past tried.calls, stalled, by rw [hreplies]; rfl, hstalled,
              Or.inr ?_⟩
            omega
        · refine ⟨replies w past tried.calls ++ before, stalled, ?_, hstalled, Or.inr hlong⟩
          rw [hreplies, List.append_assoc]

end Reliable

section Via

/-- The loop of `FlushVia`, by what the sink answers. -/
inductive ViaRun (f : ViaSink) (reliable : Bool) :
    List (List Message) → List Message → Nat → Drained → Prop where
  | empty (past : List (List Message)) (attempts : Nat) :
      ViaRun f reliable past [] attempts ⟨[], 0, none⟩
  | taken {past : List (List Message)} {m : Message} {rest : List Message} {attempts : Nat}
      {d : Drained} (hreply : f past m = none)
      (hrest : ViaRun f reliable (past ++ [[m]]) rest 0 d) :
      ViaRun f reliable past (m :: rest) attempts ⟨[m] :: d.calls, 1 + d.sent, d.err⟩
  | last {past : List (List Message)} {m : Message} {rest : List Message} {attempts : Nat}
      {err : WriteError} (hreply : f past m = some err)
      (hlast : reliable = false ∨ maxReliableRetries ≤ attempts) :
      ViaRun f reliable past (m :: rest) attempts ⟨[[m]], 0, some err⟩
  | again {past : List (List Message)} {m : Message} {rest : List Message} {attempts : Nat}
      {err : WriteError} {d : Drained} (hreply : f past m = some err)
      (hmore : attempts < maxReliableRetries)
      (hrest : ViaRun f reliable (past ++ [[m]]) (m :: rest) (attempts + 1) d) :
      ViaRun f reliable past (m :: rest) attempts ⟨[m] :: d.calls, d.sent, d.err⟩

theorem viaLoop_run (f : ViaSink) (reliable : Bool) (past : List (List Message))
    (ms : List Message) (attempts : Nat) :
    ViaRun f reliable past ms attempts (viaLoop f reliable past ms attempts) := by
  induction past, ms, attempts using viaLoop.induct f reliable with
  | case1 past attempts =>
      unfold viaLoop
      exact .empty past attempts
  | case2 past attempts m rest hreply ih =>
      unfold viaLoop
      simp only [hreply]
      exact .taken hreply ih
  | case3 past attempts m rest err hreply hlast =>
      unfold viaLoop
      simp only [hreply]
      rw [dif_pos hlast]
      exact .last hreply (hlast.imp_left (by simp))
  | case4 past attempts m rest err hreply hagain ih =>
      unfold viaLoop
      simp only [hreply]
      rw [dif_neg hagain]
      exact .again hreply (Nat.lt_of_not_le fun hspent => hagain (Or.inr hspent)) ih

variable {f : ViaSink} {reliable : Bool} {past : List (List Message)} {ms : List Message}
variable {attempts : Nat} {d : Drained}

theorem ViaRun.trace (hrun : ViaRun f reliable past ms attempts d) :
    Trace (viaTaken f) (List.take 1) past ms d.calls d.sent := by
  induction hrun with
  | empty past attempts => exact .stop past []
  | @taken past m rest attempts d hreply _ ih =>
      have htaken : viaTaken f past [m] = 1 := if_pos hreply
      have hcall : Trace (viaTaken f) (List.take 1) past (m :: rest) ([m] :: d.calls)
          (viaTaken f past [m] + d.sent) := .call (by rw [List.take_one]; exact htaken.symm ▸ ih)
      rw [htaken] at hcall
      exact hcall
  | @last past m rest attempts err hreply hlast =>
      have htaken : viaTaken f past [m] = 0 := if_neg (by simp [hreply])
      have hcall : Trace (viaTaken f) (List.take 1) past (m :: rest) [[m]]
          (viaTaken f past [m] + 0) := .call (.stop _ _)
      rw [htaken] at hcall
      exact hcall
  | @again past m rest attempts err d hreply hmore _ ih =>
      have htaken : viaTaken f past [m] = 0 := if_neg (by simp [hreply])
      have hcall : Trace (viaTaken f) (List.take 1) past (m :: rest) ([m] :: d.calls)
          (viaTaken f past [m] + d.sent) := .call (by rw [List.take_one]; exact htaken.symm ▸ ih)
      rw [htaken, Nat.zero_add] at hcall
      exact hcall

/-- A message is handed over once for every retry, and once more. -/
theorem ViaRun.calls_le (hrun : ViaRun f reliable past ms attempts d) (hms : ms ≠ [])
    (hattempts : attempts ≤ maxReliableRetries) :
    d.calls.length + attempts ≤ (maxReliableRetries + 1) * ms.length := by
  rw [maxReliableRetries] at *
  induction hrun with
  | empty past attempts => exact absurd rfl hms
  | @taken past m rest attempts d hreply hrest ih =>
      cases rest with
      | nil =>
          cases hrest with
          | empty => simp only [List.length_cons, List.length_nil]; omega
      | cons next rest =>
          have hlater := ih (List.cons_ne_nil _ _) (Nat.zero_le _)
          simp only [List.length_cons] at hlater ⊢
          omega
  | last hreply hlast =>
      simp only [List.length_cons, List.length_nil]
      omega
  | again hreply hmore hrest ih =>
      have hlater := ih hms hmore
      simp only [List.length_cons] at hlater ⊢
      omega

/-- A reliable sink loop that leaves something has failed a message for the whole budget. -/
theorem ViaRun.gives_up (hrun : ViaRun f true past ms attempts d)
    (hattempts : attempts ≤ maxReliableRetries) (hunsent : d.sent < ms.length) :
    ∃ before m count, d.calls = before ++ List.replicate count [m] ∧ ms[d.sent]? = some m ∧
      (∀ reply ∈ replies (viaReply f) (past ++ before) (List.replicate count [m]),
        reply ≠ none) ∧
      (before = [] ∧ d.sent = 0 ∧ attempts + count = maxReliableRetries + 1 ∨
        count = maxReliableRetries + 1) := by
  induction hrun with
  | empty past attempts => exact absurd hunsent (Nat.not_lt_zero _)
  | @taken past m rest attempts d hreply _ ih =>
      obtain ⟨before, m', count, hcalls, hstuck, hfailed, hcount⟩ :=
        ih (Nat.zero_le _) (by simp only [List.length_cons] at hunsent; omega)
      refine ⟨[m] :: before, m', count, ?_, ?_, ?_, Or.inr ?_⟩
      · simp only [hcalls, List.cons_append]
      · simp only [Nat.add_comm 1, List.getElem?_cons_succ, hstuck]
      · rw [List.append_assoc] at hfailed
        exact hfailed
      · rcases hcount with ⟨-, -, hbudget⟩ | hfull
        · omega
        · exact hfull
  | @last past m rest attempts err hreply hlast =>
      refine ⟨[], m, 1, rfl, rfl, ?_, Or.inl ⟨rfl, rfl, ?_⟩⟩
      · intro reply hmem
        rw [List.append_nil] at hmem
        obtain rfl : reply = f past m := List.mem_singleton.mp hmem
        simp [hreply]
      · rcases hlast with hnot | hspent
        · cases hnot
        · omega
  | @again past m rest attempts err d hreply hmore _ ih =>
      obtain ⟨before, m', count, hcalls, hstuck, hfailed, hcount⟩ := ih hmore hunsent
      rcases hcount with ⟨rfl, hsent, hbudget⟩ | hfull
      · -- The retries are of this message: nothing was taken in between.
        obtain rfl : m = m' := by
          rw [hsent, List.getElem?_cons_zero] at hstuck
          exact Option.some.inj hstuck
        refine ⟨[], m, count + 1, ?_, hstuck, ?_, Or.inl ⟨rfl, hsent, by omega⟩⟩
        · rw [List.nil_append, List.replicate_succ]
          exact congrArg ([m] :: ·) hcalls
        · intro reply hmem
          rw [List.append_nil] at hmem hfailed
          rw [List.replicate_succ, replies] at hmem
          rcases List.mem_cons.mp hmem with rfl | hlater
          · rw [viaReply, List.head?_cons, Option.bind_some, hreply]
            exact Option.some_ne_none err
          · exact hfailed reply hlater
      · refine ⟨[m] :: before, m', count, ?_, hstuck, ?_, Or.inr hfull⟩
        · simp only [hcalls, List.cons_append]
        · rw [List.append_assoc] at hfailed
          exact hfailed

end Via

/-- In any row of calls as long as the budget, one takes a message. -/
def KeepsTaking (answers : List (Int × Option WriteError)) : Prop :=
  ∀ before row after, answers = before ++ row ++ after → row.length = maxReliableRetries →
    ∃ reply ∈ row, 0 < reply.1

/-- A reliable drain that leaves something stalled for the whole budget, or stopped hard. -/
theorem flushReliable_gives_up {w : BatchWriter} {past : List (List Message)} {ms : List Message}
    (hunsent : (flushReliable w past ms).sent < ms.length) :
    HardStop (replies w past (flushReliable w past ms).calls) ∨
      ∃ before stalled, replies w past (flushReliable w past ms).calls = before ++ stalled ∧
        maxReliableRetries ≤ stalled.length ∧ ∀ reply ∈ stalled, Stalled reply := by
  rcases (flushLoop_run w past ms 0).gives_up hunsent with hhard | ⟨before, stalled, hreplies,
    hstalled, hbudget⟩
  · exact Or.inl hhard
  · refine Or.inr ⟨before, stalled, hreplies, ?_, hstalled⟩
    rcases hbudget with ⟨-, hfromStart⟩ | hlong
    · omega
    · exact hlong

theorem flushReliable_sent_le (w : BatchWriter) (past : List (List Message)) (ms : List Message) :
    (flushReliable w past ms).sent ≤ ms.length :=
  ((flushLoop_run w past ms 0).trace.accepted_eq (takenBy_orderly w)).2

theorem flushReliable_calls_le (w : BatchWriter) (past : List (List Message))
    (ms : List Message) : (flushReliable w past ms).calls.length ≤ 52 * (ms.length + 1) := by
  by_cases hms : ms = []
  · subst hms
    rw [flushReliable, flushLoop, dif_pos rfl]
    exact Nat.zero_le _
  · have hcalls := (flushLoop_run w past ms 0).calls_le hms (Nat.zero_le _)
    rw [maxReliableRetries] at hcalls
    rw [flushReliable]
    omega

theorem viaLoop_calls_le (f : ViaSink) (past : List (List Message)) (ms : List Message) :
    (viaLoop f true past ms 0).calls.length ≤ 51 * (ms.length + 1) := by
  by_cases hms : ms = []
  · subst hms
    rw [viaLoop]
    exact Nat.zero_le _
  · have hcalls := (viaLoop_run f true past ms 0).calls_le hms (Nat.zero_le _)
    rw [maxReliableRetries] at hcalls
    omega

/-- The sink loop gives up on a message after it failed 51 times in a row. -/
theorem viaLoop_gives_up {f : ViaSink} {past : List (List Message)} {ms : List Message}
    (hunsent : (viaLoop f true past ms 0).sent < ms.length) :
    ∃ before m, (viaLoop f true past ms 0).calls = before ++ List.replicate 51 [m] ∧
      ms[(viaLoop f true past ms 0).sent]? = some m ∧
      ∀ reply ∈ replies (viaReply f) (past ++ before) (List.replicate 51 [m]), reply ≠ none := by
  obtain ⟨before, m, count, hcalls, hstuck, hfailed, hcount⟩ :=
    (viaLoop_run f true past ms 0).gives_up (Nat.zero_le _) hunsent
  obtain rfl : count = 51 := by
    rw [maxReliableRetries] at hcount
    omega
  exact ⟨before, m, hcalls, hstuck, hfailed⟩

/-- A writer that keeps taking messages is given all of them. -/
theorem flushReliable_of_keepsTaking {w : BatchWriter} {past : List (List Message)}
    {ms : List Message}
    (hsoft : ∀ reply ∈ replies w past (flushReliable w past ms).calls,
      isHardSendErr reply.2 = false)
    (htakes : KeepsTaking (replies w past (flushReliable w past ms).calls)) :
    (flushReliable w past ms).sent = ms.length := by
  apply Nat.le_antisymm (flushReliable_sent_le w past ms)
  by_contra hunsent
  rcases flushReliable_gives_up (Nat.lt_of_not_le hunsent) with ⟨before, last, hreplies, hhard⟩ |
    ⟨before, stalled, hreplies, hlong, hstalled⟩
  · have hlast := hsoft last (by rw [hreplies]; simp)
    rw [hlast] at hhard
    cases hhard
  · obtain ⟨reply, hreply, hpos⟩ := htakes before (stalled.take maxReliableRetries)
      (stalled.drop maxReliableRetries)
      (by rw [hreplies, List.append_assoc, List.take_append_drop])
      (List.length_take_of_le hlong)
    have hnone := (hstalled reply (List.mem_of_mem_take hreply)).1
    omega

/-- The reliable lane ends within its budget, and gives up only when the budget is spent on
one standstill or an error is hard. -/
theorem reliable_lane_bounded :
    (∀ (w : BatchWriter) past ms,
        (flushReliable w past ms).calls.length ≤ 52 * (ms.length + 1)) ∧
      (∀ (f : ViaSink) past ms, (viaLoop f true past ms 0).calls.length ≤ 51 * (ms.length + 1)) ∧
      (∀ (w : BatchWriter) past ms, (flushReliable w past ms).sent < ms.length →
        HardStop (replies w past (flushReliable w past ms).calls) ∨
          ∃ before stalled, replies w past (flushReliable w past ms).calls = before ++ stalled ∧
            50 ≤ stalled.length ∧ ∀ reply ∈ stalled, Stalled reply) ∧
      (∀ (f : ViaSink) past ms, (viaLoop f true past ms 0).sent < ms.length →
        ∃ before m, (viaLoop f true past ms 0).calls = before ++ List.replicate 51 [m] ∧
          ms[(viaLoop f true past ms 0).sent]? = some m ∧
          ∀ reply ∈ replies (viaReply f) (past ++ before) (List.replicate 51 [m]), reply ≠ none) ∧
      ∀ (w : BatchWriter) past ms,
        (∀ reply ∈ replies w past (flushReliable w past ms).calls,
          isHardSendErr reply.2 = false) →
        KeepsTaking (replies w past (flushReliable w past ms).calls) →
          (flushReliable w past ms).sent = ms.length := by
  refine ⟨flushReliable_calls_le, viaLoop_calls_le, ?_, ?_, ?_⟩
  · intro w past ms hunsent
    exact flushReliable_gives_up hunsent
  · intro f past ms hunsent
    exact viaLoop_gives_up hunsent
  · intro w past ms hsoft htakes
    exact flushReliable_of_keepsTaking hsoft htakes

section Sample

def sampleMessage : Message := ⟨[1], ⟨0, 0, 0⟩, 9001, "eth0"⟩

/-- A sink and a writer that are always full, and a writer that takes one at a time. -/
def fullSink : ViaSink := fun _ _ => some .enobufs

def fullWriter : BatchWriter := fun _ _ => (0, some .enobufs)

def oneWriter : BatchWriter := fun _ _ => (1, none)

theorem replies_oneWriter (past calls : List (List Message)) :
    ∀ reply ∈ replies oneWriter past calls, reply = (1, none) := by
  induction calls generalizing past with
  | nil => exact fun _ hreply => by cases hreply
  | cons call calls ih => exact List.forall_mem_cons.mpr ⟨rfl, ih _⟩

theorem writeBatchAll_oneWriter (past : List (List Message)) (ms : List Message) :
    (writeBatchAll oneWriter past ms).calls.length = ms.length ∧
      (writeBatchAll oneWriter past ms).sent = ms.length := by
  induction ms generalizing past with
  | nil => simp [writeBatchAll]
  | cons m ms ih =>
      have htook : clampSent 1 (ms.length + 1) = 1 := by
        rw [clampSent, if_pos (by decide)]
        exact Nat.min_eq_left (Nat.le_add_left 1 _)
      rw [writeBatchAll]
      simp [oneWriter, htook, ih, Nat.add_comm]

theorem flushReliable_oneWriter {ms : List Message} (hms : ms ≠ []) :
    (flushReliable oneWriter [] ms).calls.length = ms.length := by
  obtain ⟨hcalls, hsent⟩ := writeBatchAll_oneWriter [] ms
  rw [flushReliable, flushLoop, dif_neg hms]
  simp [hsent, hcalls, List.length_pos_iff.mpr hms]

/-- One message that is given up on after the budget, and sixty taken one by one. -/
theorem reliable_lane_bounded_sample :
    (∃ before m, (viaLoop fullSink true [] [sampleMessage] 0).calls =
        before ++ List.replicate 51 [m]) ∧
      (∃ answers : List (Int × Option WriteError),
        answers = replies fullWriter [] (flushReliable fullWriter [] [sampleMessage]).calls ∧
          (HardStop answers ∨ ∃ before stalled, answers = before ++ stalled ∧
            50 ≤ stalled.length ∧ ∀ reply ∈ stalled, Stalled reply)) ∧
      (flushReliable oneWriter [] (List.replicate 60 sampleMessage)).calls.length = 60 ∧
      (flushReliable oneWriter [] (List.replicate 60 sampleMessage)).sent = 60 := by
  obtain ⟨-, -, hwriter, hsink, htakes⟩ := reliable_lane_bounded
  refine ⟨?_, ?_, ?_, ?_⟩
  · have hnone : (viaLoop fullSink true [] [sampleMessage] 0).sent = 0 :=
      (viaLoop_run fullSink true [] [sampleMessage] 0).trace.sent_of_none
        (fun past offered => by cases offered <;> rfl)
    obtain ⟨before, m, hcalls, -⟩ := hsink fullSink [] [sampleMessage] (by rw [hnone]; decide)
    exact ⟨before, m, hcalls⟩
  · have hnone : (flushReliable fullWriter [] [sampleMessage]).sent = 0 :=
      (flushLoop_run fullWriter [] [sampleMessage] 0).trace.sent_of_none (fun _ _ => rfl)
    exact ⟨_, rfl, hwriter fullWriter [] [sampleMessage] (by rw [hnone]; decide)⟩
  · exact flushReliable_oneWriter (by decide)
  · apply htakes oneWriter [] (List.replicate 60 sampleMessage)
    · intro reply hreply
      rw [replies_oneWriter _ _ reply hreply]
      rfl
    · intro before row after hsplit hlong
      have hpos : 0 < row.length := by
        rw [hlong]
        decide
      obtain ⟨reply, hreply⟩ := List.exists_mem_of_length_pos hpos
      have hmem : reply ∈ before ++ row ++ after := by simp [hreply]
      rw [← hsplit] at hmem
      exact ⟨reply, hreply, replies_oneWriter _ _ reply hmem ▸ by decide⟩

end Sample

end ShardProxy
