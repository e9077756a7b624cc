/-
Draining a queue through calls that take some of what they are offered.  Each call
is offered what is left of the queue, or the first of it; what it takes, from the
front, is gone for the next.  What is taken in all is a prefix of the queue, in order,
and nothing that was taken is offered again.
-/
import Mathlib.Data.List.Basic

namespace Drain

section Replies

variable {C A : Type}

/-- What a sequence of calls is answered, each by the calls before it. -/
def replies (reply : List C → C → A) : List C → List C → List A
  | _, [] => []
  | past, call :: calls => reply past call :: replies reply (past ++ [call]) calls

theorem replies_append (reply : List C → C → A) (past first second : List C) :
    replies reply past (first ++ second) =
      replies reply past first ++ replies reply (past ++ first) second := by
  induction first generalizing past with
  | nil => rw [List.nil_append, List.append_nil]; rfl
  | cons call first ih =>
      rw [List.cons_append, replies, replies, ih, List.append_assoc]
      rfl

end Replies

section Trace

variable {M : Type} (took : List (List M) → List M → Nat) (offer : List M → List M)

/-- Calls made on a queue, and how many messages they take in all. -/
inductive Trace : List (List M) → List M → List (List M) → Nat → Prop where
  | stop (past : List (List M)) (queue : List M) : Trace past queue [] 0
  | call {past : List (List M)} {queue : List M} {calls : List (List M)} {sent : Nat}
      (hrest : Trace (past ++ [offer queue]) (queue.drop (took past (offer queue))) calls sent) :
      Trace past queue (offer queue :: calls) (took past (offer queue) + sent)

/-- The messages that a sequence of calls takes. -/
def accepted : List (List M) → List (List M) → List M
  | _, [] => []
  | past, offered :: calls =>
      offered.take (took past offered) ++ accepted (past ++ [offered]) calls

/-- Calls take no more than they are offered, and are offered the front of the queue. -/
structure Orderly : Prop where
  took_le : ∀ past offered, took past offered ≤ offered.length
  offer_front : ∀ queue, offer queue <+: queue

variable {took offer} {past calls : List (List M)} {queue : List M} {sent : Nat}

theorem Trace.append {calls' : List (List M)} {sent' : Nat}
    (hfirst : Trace took offer past queue calls sent)
    (hsecond : Trace took offer (past ++ calls) (queue.drop sent) calls' sent') :
    Trace took offer past queue (calls ++ calls') (sent + sent') := by
  induction hfirst with
  | stop past queue =>
      rw [List.append_nil, List.drop_zero] at hsecond
      rw [List.nil_append, Nat.zero_add]
      exact hsecond
  | @call past queue calls sent _ ih =>
      rw [List.cons_append, Nat.add_assoc]
      apply Trace.call
      apply ih
      rw [List.append_assoc, List.drop_drop]
      exact hsecond

/-- Calls that take nothing leave the queue as it is. -/
theorem Trace.sent_of_none (htrace : Trace took offer past queue calls sent)
    (hnone : ∀ past offered, took past offered = 0) : sent = 0 := by
  induction htrace with
  | stop past queue => rfl
  | call _ ih => rw [hnone, ih]

variable (horderly : Orderly took offer)

include horderly

theorem Orderly.take_offer (past : List (List M)) (queue : List M) :
    (offer queue).take (took past (offer queue)) = queue.take (took past (offer queue)) := by
  obtain ⟨rest, hrest⟩ := horderly.offer_front queue
  have hle := horderly.took_le past (offer queue)
  rw [← List.take_append_of_le_length hle, hrest]

theorem Trace.accepted_eq (htrace : Trace took offer past queue calls sent) :
    accepted took past calls = queue.take sent ∧ sent ≤ queue.length := by
  induction htrace with
  | stop past queue => exact ⟨List.take_zero.symm, Nat.zero_le _⟩
  | @call past queue calls sent _ ih =>
      obtain ⟨hrest, hle⟩ := ih
      have htook : took past (offer queue) ≤ queue.length :=
        Nat.le_trans (horderly.took_le past (offer queue)) (horderly.offer_front queue).length_le
      rw [List.length_drop] at hle
      refine ⟨?_, by omega⟩
      rw [accepted, hrest, horderly.take_offer, List.take_add]

/-- Every call is offered what the calls before it have left. -/
theorem Trace.offered (htrace : Trace took offer past queue calls sent)
    {before after : List (List M)} {offered : List M}
    (hcalls : calls = before ++ offered :: after) :
    offered = offer (queue.drop (accepted took past before).length) := by
  induction htrace generalizing before with
  | stop past queue => simp at hcalls
  | @call past queue calls sent hrest ih =>
      cases before with
      | nil =>
          rw [List.nil_append, List.cons.injEq] at hcalls
          rw [accepted, List.length_nil, List.drop_zero]
          exact hcalls.1.symm
      | cons first before =>
          rw [List.cons_append, List.cons.injEq] at hcalls
          obtain ⟨rfl, hcalls⟩ := hcalls
          have htook : ((offer queue).take (took past (offer queue))).length =
              took past (offer queue) := by
            rw [List.length_take, Nat.min_eq_left (horderly.took_le _ _)]
          rw [ih hcalls, accepted, List.length_append, htook, List.drop_drop]

end Trace

end Drain
