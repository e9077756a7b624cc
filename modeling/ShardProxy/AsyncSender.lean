/-
An egress with a sender next to one without.  Whatever the interleaving of the
goroutine that flushes with the sender, the calls a target's writer has, what is
counted and the buffers put back are, so far, those of the same script flushed on
the spot; and they are all of them once `StopSender` returns.
-/
import ShardProxy.Egress

namespace ShardProxy

open Handoff

section Sender

variable {n : Nat} {zones : Fin n → String} {writers : Fin n → BatchWriter}

theorem writeTargets_cons (b : Batch n) (i : Fin n) (rest : List (Fin n))
    (out : List (EgressEvent n)) :
    writeTargets writers b (i :: rest) out =
      writeTargets writers b rest (out ++ writeTarget writers i (b.msgs i) b.counted out) := rfl

theorem writeTargets_congr {b b' : Batch n} {targets : List (Fin n)}
    (hmsgs : ∀ i ∈ targets, b.msgs i = b'.msgs i) (hcounted : b.counted = b'.counted)
    (out : List (EgressEvent n)) :
    writeTargets writers b targets out = writeTargets writers b' targets out := by
  induction targets generalizing out with
  | nil => rfl
  | cons i rest ih =>
      rw [writeTargets_cons, writeTargets_cons, hmsgs i List.mem_cons_self, hcounted]
      exact ih (fun j hj => hmsgs j (List.mem_cons_of_mem i hj)) _

theorem drop_finRange {i : Nat} (hi : i < n) :
    (List.finRange n).drop i = ⟨i, hi⟩ :: (List.finRange n).drop (i + 1) := by
  have hlength : i < (List.finRange n).length := by simpa using hi
  rw [List.drop_eq_getElem_cons hlength, List.getElem_finRange]
  rfl

theorem le_of_mem_drop_finRange {i : Nat} {j : Fin n} (hj : j ∈ (List.finRange n).drop i) :
    i ≤ j.val := by
  obtain ⟨k, hk, rfl⟩ := List.mem_drop_iff_getElem.mp hj
  simp

/-- From a pooled buffer on, the sender puts the rest back and empties the batch. -/
theorem works_putting {b : Batch n} (hmsgs : ∀ i, b.msgs i = []) {left j : Nat}
    (hleft : j + left = b.pooled.length) (out : List (EgressEvent n)) :
    Works (senderRing zones writers) (.putting j) b out
      (out ++ (b.pooled.drop j).map .put) (left + 2) := by
  induction left generalizing j out with
  | zero =>
      have hend : b.pooled.length ≤ j := by omega
      have hblank : { b with pooled := [], counted := [] } = Batch.blank n := by
        rw [Batch.blank, Batch.mk.injEq]
        exact ⟨funext hmsgs, rfl, rfl⟩
      have hwork : (senderRing zones writers).work (.putting j) b out =
          some (.through, Batch.blank n, []) := by
        simp only [senderRing, senderWork, List.getElem?_eq_none hend, hblank]
      rw [List.drop_eq_nil_of_le hend, List.map_nil, List.append_nil]
      apply Works.step hwork
      rw [List.append_nil]
      exact .done rfl
  | succ left ih =>
      have hlt : j < b.pooled.length := by omega
      have hwork : (senderRing zones writers).work (.putting j) b out =
          some (.putting (j + 1), b, [.put b.pooled[j]]) := by
        simp only [senderRing, senderWork, List.getElem?_eq_getElem hlt]
      have hnext : j + 1 + left = b.pooled.length := by omega
      rw [List.drop_eq_getElem_cons hlt, List.map_cons, List.append_cons]
      exact .step hwork (ih hnext _)

/-- From a target on, the sender writes the rest and then puts the buffers back. -/
theorem works_writing {b : Batch n} {left i : Nat} (hleft : i + left = n)
    (hmsgs : ∀ j : Fin n, j.val < i → b.msgs j = []) (out : List (EgressEvent n)) :
    Works (senderRing zones writers) (.writing i) b out
      (writeTargets writers b ((List.finRange n).drop i) out ++ b.pooled.map .put)
      (left + (b.pooled.length + 3)) := by
  induction left generalizing i b out with
  | zero =>
      have hend : ¬ i < n := by omega
      have hwork : (senderRing zones writers).work (.writing i) b out =
          some (.putting 0, b, []) := by
        simp only [senderRing, senderWork, hend, ↓reduceDIte]
      have hall : ∀ j, b.msgs j = [] := fun j => hmsgs j (by omega)
      have hdrop : (List.finRange n).drop i = [] := List.drop_eq_nil_of_le (by simp; omega)
      have hputs : Works (senderRing zones writers) (.putting 0) b (out ++ [])
          (out ++ b.pooled.map .put) (b.pooled.length + 2) := by
        rw [List.append_nil]
        exact works_putting hall (Nat.zero_add b.pooled.length) out
      rw [hdrop, Nat.zero_add]
      exact .step hwork hputs
  | succ left ih =>
      have hi : i < n := by omega
      have hwork : (senderRing zones writers).work (.writing i) b out =
          some (.writing (i + 1), { b with msgs := Function.update b.msgs ⟨i, hi⟩ [] },
            writeTarget writers ⟨i, hi⟩ (b.msgs ⟨i, hi⟩) b.counted out) := by
        simp only [senderRing, senderWork, hi, ↓reduceDIte]
      have hnext : i + 1 + left = n := by omega
      have hcleared : ∀ j : Fin n, j.val < i + 1 →
          Function.update b.msgs ⟨i, hi⟩ [] j = [] := by
        intro j hj
        by_cases hsame : j = ⟨i, hi⟩
        · rw [hsame, Function.update_self]
        · have hne : j.val ≠ i := fun hval => hsame (Fin.ext hval)
          rw [Function.update_of_ne hsame]
          exact hmsgs j (by omega)
      -- the targets still to come are not the one just cleared
      have hrest : ∀ j ∈ (List.finRange n).drop (i + 1),
          b.msgs j = Function.update b.msgs ⟨i, hi⟩ [] j := by
        intro j hj
        have hlt := le_of_mem_drop_finRange hj
        have hne : j ≠ ⟨i, hi⟩ := fun hsame => by
          rw [hsame] at hlt
          exact Nat.not_succ_le_self i hlt
        rw [Function.update_of_ne hne]
      have hsame : ∀ out, writeTargets writers b ((List.finRange n).drop (i + 1)) out =
          writeTargets writers { b with msgs := Function.update b.msgs ⟨i, hi⟩ [] }
            ((List.finRange n).drop (i + 1)) out := by
        intro out
        apply writeTargets_congr
        · exact hrest
        · rfl
      rw [drop_finRange hi, writeTargets_cons, hsame, Nat.add_right_comm]
      exact .step hwork (ih hnext hcleared _)

/-- The sender's loop over a batch comes to what a flush on the spot does. -/
theorem works_sender (b : Batch n) (out : List (EgressEvent n)) :
    Works (senderRing zones writers) (senderRing zones writers).start b out
      (flushOut writers b out) (n + (b.pooled.length + 3)) :=
  works_writing (Nat.zero_add n) (fun _ hj => absurd hj (Nat.not_lt_zero _)) out

end Sender

section Flushes

variable {n : Nat} (zones : Fin n → String) (writers : Fin n → BatchWriter)

/-- The batches a script's flushes take, in order. -/
def flushed : List (Op EgressItem) → AddrCache n → Batch n → List (Batch n)
  | [], _, _ => []
  | .load item :: rest, cache, b =>
      flushed rest (egressEnqueue zones item cache b).1 (egressEnqueue zones item cache b).2
  | .flush :: rest, cache, b =>
      if b.counted = [] then flushed rest cache b else b :: flushed rest cache (.blank n)

/-- What is out once batches are flushed one after the other. -/
def outOf (batches : List (Batch n)) : List (EgressEvent n) :=
  batches.foldl (fun out b => flushOut writers b out) []

variable {zones writers}

theorem writeTargets_blank (targets : List (Fin n)) (out : List (EgressEvent n)) :
    writeTargets writers (Batch.blank n) targets out = out := by
  induction targets generalizing out with
  | nil => rfl
  | cons i rest ih =>
      have hnone :
          writeTarget writers i ((Batch.blank n).msgs i) (Batch.blank n).counted out = [] :=
        if_pos rfl
      rw [writeTargets_cons, hnone, List.append_nil]
      exact ih out

theorem flushOut_blank (out : List (EgressEvent n)) :
    flushOut writers (Batch.blank n) out = out := by
  rw [flushOut, writeTargets_blank]
  exact List.append_nil out

theorem serve_eq_foldl (script : List (Op EgressItem)) (cache : AddrCache n) (b : Batch n)
    (out : List (EgressEvent n)) :
    serve (senderRing zones writers) (flushOut writers) script cache b out =
      (flushed zones script cache b).foldl (fun out b => flushOut writers b out) out := by
  induction script generalizing cache b out with
  | nil => rfl
  | cons op rest ih =>
      cases op with
      | load item => exact ih _ _ _
      | flush =>
          by_cases hcounted : b.counted = []
          · have hready : (senderRing zones writers).ready b = false := by
              simp [senderRing, hcounted]
            simp only [serve, hready, flushed, hcounted, Bool.false_eq_true, ↓reduceIte]
            exact ih _ _ _
          · have hready : (senderRing zones writers).ready b = true := by
              simp [senderRing, hcounted]
            simp only [serve, hready, flushed, hcounted, ↓reduceIte, List.foldl_cons]
            exact ih _ _ _

/-- A flush of an egress that has nothing counted does nothing. -/
theorem Egress.run_out {e : Egress n} (hloaded : e.queue.counted = [] → e.queue = .blank n)
    (script : List (Op EgressItem)) :
    (e.run zones writers script).out =
      (flushed zones script e.cache e.queue).foldl (fun out b => flushOut writers b out) e.out := by
  induction script generalizing e with
  | nil => rfl
  | cons op rest ih =>
      rw [Egress.run, List.foldl_cons]
      cases op with
      | load item =>
          refine ih ?_
          intro hcounted
          simp [Egress.step, egressEnqueue] at hcounted
      | flush =>
          refine (ih fun _ => rfl).trans ?_
          by_cases hcounted : e.queue.counted = []
          · rw [flushed, if_pos hcounted]
            simp only [Egress.step, hloaded hcounted, flushOut_blank]
          · simp only [Egress.step, flushed, hcounted, ↓reduceIte, List.foldl_cons]

theorem Egress.new_run_out (script : List (Op EgressItem)) :
    ((Egress.new n).run zones writers script).out =
      outOf writers (flushed zones script (fun _ _ => none) (.blank n)) :=
  Egress.run_out (fun _ => rfl) script

variable (writers) in
/-- Writing adds events, none of which puts a buffer back. -/
theorem writeTargets_extends (b : Batch n) (targets : List (Fin n))
    (out : List (EgressEvent n)) :
    ∃ events, writeTargets writers b targets out = out ++ events ∧
      ∀ buffer, .put buffer ∉ events := by
  induction targets generalizing out with
  | nil => exact ⟨[], (List.append_nil out).symm, fun _ => List.not_mem_nil⟩
  | cons i rest ih =>
      rw [writeTargets_cons]
      obtain ⟨events, hevents, hputs⟩ :=
        ih (out ++ writeTarget writers i (b.msgs i) b.counted out)
      refine ⟨writeTarget writers i (b.msgs i) b.counted out ++ events, ?_, ?_⟩
      · rw [hevents, List.append_assoc]
      · intro buffer hput
        rcases List.mem_append.mp hput with hfirst | hlater
        · rw [writeTarget] at hfirst
          split at hfirst
          · cases hfirst
          · simp at hfirst
        · exact hputs buffer hlater

theorem call_mem_writeTargets {b : Batch n} {i : Fin n} (hms : b.msgs i ≠ [])
    {targets : List (Fin n)} (hi : i ∈ targets) (out : List (EgressEvent n)) :
    .call i (b.msgs i) ∈ writeTargets writers b targets out := by
  induction targets generalizing out with
  | nil => cases hi
  | cons first rest ih =>
      rw [writeTargets_cons]
      rcases List.mem_cons.mp hi with rfl | hrest
      · obtain ⟨events, hevents, _⟩ := writeTargets_extends writers b rest
          (out ++ writeTarget writers i (b.msgs i) b.counted out)
        have hfirst := flushReliable_first (writers i) (callsTo i out) hms
        rw [hevents, writeTarget, if_neg hms]
        simp only [List.mem_append, List.mem_map]
        exact Or.inl (Or.inr (Or.inl ⟨_, hfirst, rfl⟩))
      · exact ih hrest _

theorem outOf_snoc (batches : List (Batch n)) (b : Batch n) :
    outOf writers (batches ++ [b]) = flushOut writers b (outOf writers batches) := by
  rw [outOf, List.foldl_append]
  rfl

/-- Every message of a flushed batch has been offered to its writer. -/
theorem call_mem_outOf {batches : List (Batch n)} {b : Batch n} (hb : b ∈ batches) {i : Fin n}
    (hms : b.msgs i ≠ []) : .call i (b.msgs i) ∈ outOf writers batches := by
  induction batches using List.reverseRecOn with
  | nil => cases hb
  | append_singleton batches last ih =>
      rw [outOf_snoc, flushOut]
      apply List.mem_append_left
      rcases List.mem_append.mp hb with hearlier | hlast
      · obtain ⟨events, hevents, _⟩ := writeTargets_extends writers last (List.finRange n)
          (outOf writers batches)
        rw [hevents]
        exact List.mem_append_left _ (ih hearlier)
      · obtain rfl := List.mem_singleton.mp hlast
        exact call_mem_writeTargets hms (List.mem_finRange i) _

/-- An item of two lists put together is in the first, or the first is before it. -/
theorem append_eq_cases {A : Type} {first second pre post : List A} {item : A}
    (hboth : first ++ second = pre ++ item :: post) :
    (∃ rest, first = pre ++ item :: rest) ∨
      ∃ rest, pre = first ++ rest ∧ second = rest ++ item :: post := by
  rcases List.append_eq_append_iff.mp hboth with ⟨rest, hpre, hsecond⟩ | ⟨rest, hfirst, hlater⟩
  · exact Or.inr ⟨rest, hpre, hsecond⟩
  · cases rest with
    | nil => exact Or.inr ⟨[], by simpa using hfirst.symm, hlater.symm⟩
    | cons found rest =>
        cases hlater
        exact Or.inl ⟨rest, hfirst⟩

/-- Where a buffer is put back: after every target's write of its batch, and after
the buffers before it in the batch. -/
theorem put_position {batches : List (Batch n)} {pre post : List (EgressEvent n)} {buffer : Nat}
    (hout : outOf writers batches = pre ++ .put buffer :: post) :
    ∃ before b after j, batches = before ++ b :: after ∧ b.pooled[j]? = some buffer ∧
      pre = writeTargets writers b (List.finRange n) (outOf writers before) ++
        (b.pooled.take j).map .put := by
  induction batches using List.reverseRecOn generalizing post with
  | nil => simp [outOf] at hout
  | append_singleton batches last ih =>
      obtain ⟨events, hevents, hputs⟩ := writeTargets_extends writers last (List.finRange n)
        (outOf writers batches)
      rw [outOf_snoc, flushOut] at hout
      rcases append_eq_cases hout with ⟨rest, hwritten⟩ | ⟨rest, hpre, hpooled⟩
      · rw [hevents] at hwritten
        rcases append_eq_cases hwritten with ⟨rest, hearlier⟩ | ⟨rest, _, hamong⟩
        · obtain ⟨before, b, after, j, rfl, hbuffer, hpre⟩ := ih hearlier
          exact ⟨before, b, after ++ [last], j, by simp, hbuffer, hpre⟩
        · exact absurd (hamong ▸ List.mem_append_right rest List.mem_cons_self) (hputs buffer)
      · obtain ⟨early, late, hsplit, rfl, hlate⟩ := List.map_eq_append_iff.mp hpooled
        obtain ⟨found, later, rfl, hfound, _⟩ := List.map_eq_cons_iff.mp hlate
        cases hfound
        refine ⟨batches, last, [], early.length, rfl, ?_, ?_⟩
        · rw [hsplit, List.getElem?_append_right (Nat.le_refl _), Nat.sub_self]
          rfl
        · rw [hpre, hsplit, List.take_left]

theorem putsOf_append (first second : List (EgressEvent n)) :
    putsOf (first ++ second) = putsOf first ++ putsOf second :=
  List.filterMap_append

theorem putsOf_of_none {events : List (EgressEvent n)} (hputs : ∀ buffer, .put buffer ∉ events) :
    putsOf events = [] := by
  apply List.filterMap_eq_nil_iff.mpr
  intro event hevent
  cases event with
  | call target ms => rfl
  | wrote target sent err counted => rfl
  | put buffer => exact absurd hevent (hputs buffer)

theorem putsOf_map_put (buffers : List Nat) :
    putsOf (buffers.map (EgressEvent.put : Nat → EgressEvent n)) = buffers := by
  induction buffers with
  | nil => rfl
  | cons buffer rest ih => exact congrArg (buffer :: ·) ih

variable (writers) in
/-- The buffers put back are those the flushes took, each once and in order. -/
theorem putsOf_outOf (batches : List (Batch n)) :
    putsOf (outOf writers batches) = batches.flatMap Batch.pooled := by
  induction batches using List.reverseRecOn with
  | nil => rfl
  | append_singleton batches last ih =>
      obtain ⟨events, hevents, hputs⟩ := writeTargets_extends writers last (List.finRange n)
        (outOf writers batches)
      rw [outOf_snoc, flushOut, hevents, putsOf_append, putsOf_append, ih, putsOf_of_none hputs,
        putsOf_map_put]
      simp

end Flushes

section Refinement

variable {n : Nat} (zones : Fin n → String) (writers : Fin n → BatchWriter) (depth : Int)
  (script : List (Op EgressItem))

/-- The state of an egress with a sender against its script flushed on the spot. -/
structure RefinesFlush (batches : List (Batch n))
    (s : Sys EgressItem (AddrCache n) (Batch n) SenderPos (EgressEvent n)) : Prop where
  /-- Every writer has had a first part of its calls. -/
  offered : ∀ i, callsTo i s.out <+:
    callsTo i ((Egress.new n).run zones writers script).out
  /-- A batch is free, queued, or in one goroutine's hand. -/
  places : s.places.Perm (List.range (senderDepth depth + 1))
  /-- No batch is filled that the sender still has to write. -/
  inFlight : ∀ b ∈ s.hand.held, b ∉ s.full ∧ b ∉ s.worker.held
  /-- Neither side is stuck. -/
  live : s.hand ≠ .stopped → ∃ s', Step (senderRing zones writers) (senderDepth depth) s s'
  returns : ∀ b, s.worker = .returning b →
    ∃ s', Consume (senderRing zones writers) (senderDepth depth) s s' ∧ b ∈ s'.free
  waits : s.Blocked (senderRing zones writers) (senderDepth depth) →
    s.Owes ∧ ∃ s', Consume (senderRing zones writers) (senderDepth depth) s s'
  /-- A buffer is put back after every target's write of its batch. -/
  putsAfter : ∀ pre buffer post, s.out = pre ++ .put buffer :: post →
    ∃ before b after j, batches = before ++ b :: after ∧ b.pooled[j]? = some buffer ∧
      pre = writeTargets writers b (List.finRange n) (outOf writers before) ++
        (b.pooled.take j).map .put
  putsOnce : putsOf s.out <+: batches.flatMap Batch.pooled
  /-- After `StopSender` everything flushed is out. -/
  stopped : s.hand = .stopped →
    s.out = ((Egress.new n).run zones writers script).out ∧
    (∀ b ∈ batches, ∀ i, b.msgs i ≠ [] → .call i (b.msgs i) ∈ s.out) ∧
    putsOf s.out = batches.flatMap Batch.pooled

/-- The steps a script takes to the end of `StopSender`, of both goroutines. -/
def senderSteps : Nat :=
  scriptCost (senderRing zones writers) (fun b => n + (b.pooled.length + 3)) script
    (fun _ _ => none) (.blank n) + 3

variable {zones writers depth script}

theorem senderDepth_pos (depth : Int) : 0 < senderDepth depth := by
  rw [senderDepth]
  split <;> omega

theorem callsTo_grows {first second : List (EgressEvent n)} (hgrows : first <+: second)
    (i : Fin n) : callsTo i first <+: callsTo i second :=
  hgrows.filterMap _

/-- A sender's writes, in every interleaving, are those of flushing on the spot;
and every interleaving comes to the end of `StopSender`, after the same number of
steps. -/
theorem sender_refines_flush {m : Nat}
    {s : Sys EgressItem (AddrCache n) (Batch n) SenderPos (EgressEvent n)}
    (hreach : Reach (senderRing zones writers) (senderDepth depth)
      (startSender zones writers depth script) m s) :
    RefinesFlush zones writers depth script
        (flushed zones script (fun _ _ => none) (.blank n)) s ∧
      ∃ k s', m + k = senderSteps zones writers script ∧
        Reach (senderRing zones writers) (senderDepth depth) s k s' ∧ s'.hand = .stopped := by
  obtain ⟨hinv, left, hleft, hpredicts⟩ := hreach.predicts works_sender
  have hfinal : serve (senderRing zones writers) (flushOut writers) script (fun _ _ => none)
      (senderRing zones writers).blank [] =
        outOf writers (flushed zones script (fun _ _ => none) (.blank n)) :=
    serve_eq_foldl script _ _ _
  have hout := hpredicts.out_grows works_sender
  rw [hfinal] at hout
  refine ⟨⟨?_, hinv.places, ?_, ?_, ?_, ?_, ?_, ?_, ?_⟩, ?_⟩
  · intro i
    rw [Egress.new_run_out]
    exact callsTo_grows hout i
  · intro b hb
    exact (hinv.of_mem_hand hb).2
  · exact hinv.progress (senderDepth_pos depth)
  · intro b hworker
    exact ⟨_, .giveBack hworker (hinv.room hworker), List.mem_append_right _ List.mem_cons_self⟩
  · intro hblocked
    have howes := hinv.owes_of_blocked (senderDepth_pos depth) hblocked
    exact ⟨howes, hinv.consume_of_owes howes⟩
  · intro pre buffer post hsplit
    obtain ⟨rest, hrest⟩ := hout
    rw [hsplit, List.append_assoc] at hrest
    exact put_position hrest.symm
  · rw [← putsOf_outOf writers]
    exact hout.filterMap _
  · intro hstopped
    have hsame := (hpredicts.stopped hinv hstopped).1.trans hfinal
    refine ⟨hsame.trans (Egress.new_run_out script).symm, ?_, ?_⟩
    · intro b hb i hms
      rw [hsame]
      exact call_mem_outOf hb hms
    · rw [hsame]
      exact putsOf_outOf writers _
  · exact hreach.ends works_sender (senderDepth_pos depth)

end Refinement

section Sample

def sampleZones : Fin 2 → String := ![ "eth0", "eth1" ]

/-- The first writer takes what it is offered; the second takes one datagram at a
time, and backs off on every other call. -/
def sampleWriters : Fin 2 → BatchWriter :=
  ![fun _ ms => (ms.length, none),
    fun past _ => if past.length % 2 = 0 then (0, some .enobufs) else (1, none)]

/-- Two batches, of two datagrams and of one, with pooled buffers behind them. -/
def sampleEgressScript : List (Op EgressItem) :=
  let item (byte : UInt8) (buffer : Nat) : EgressItem :=
    ⟨{ enqueueData [byte] ⟨⟨0, 0, 0⟩, 9001⟩ 0 with pooled := true }, 0, buffer⟩
  [.load (item 1 0), .load (item 2 1), .flush, .flush, .load (item 3 2), .flush]

/-- A run to the end of `StopSender` with two batches in flight at most. -/
theorem sender_refines_flush_sample :
    ∃ m s, Reach (senderRing sampleZones sampleWriters) (senderDepth 2)
        (startSender sampleZones sampleWriters 2 sampleEgressScript) m s ∧
      s.hand = .stopped ∧
      s.out = ((Egress.new 2).run sampleZones sampleWriters sampleEgressScript).out ∧
      putsOf s.out = [0, 1, 2] := by
  have hstart : Reach (senderRing sampleZones sampleWriters) (senderDepth 2)
      (startSender sampleZones sampleWriters 2 sampleEgressScript) 0
      (startSender sampleZones sampleWriters 2 sampleEgressScript) := .start
  obtain ⟨_, k, s, _, hreach, hstopped⟩ := sender_refines_flush hstart
  obtain ⟨hrefines, _⟩ := sender_refines_flush hreach
  obtain ⟨hout, _, hputs⟩ := hrefines.stopped hstopped
  exact ⟨k, s, hreach, hstopped, hout, hputs.trans rfl⟩

end Sample

end ShardProxy
