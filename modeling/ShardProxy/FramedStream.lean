/-
The framed stream of a TCP connection.  However its reads cut the bytes, the
forwarder is handed the items of the longest front of the stream that is made of
well-formed items, each once and as it came; behind it the connection is closed.
The loop looks at the bytes it has: it takes an item when the whole of it is
there, asks for more when something is missing, and stops at what more bytes
cannot mend.
-/
import ShardProxy.BlockingReads

namespace ShardProxy

open ByteField StreamLoop

/-- What the reads of a connection deliver until one of them fails. -/
def delivered : List ReadResult → Bytes
  | [] => []
  | .fail :: _ => []
  | .timeout :: rest => delivered rest
  | .data chunk :: rest => chunk.1 ++ delivered rest

def ConnEgress.items (egr : ConnEgress) : List Handed :=
  egr.handed.map Handover.item

/-- A connection hands on the items and nothing else, ends, and has flushed what
they put on its egress. -/
structure ReadExactly (ti : TCPIngress) (decodeBundle : Bytes → Option Bundle) (shared : Shared)
    (script : List ReadResult) (items : List Handed) : Prop where
  ends : ∃ n why, (ti.handleConn shared script n).phase = .ended why
  front : ∀ n, (ti.handleConn shared script n).egr.items <+: items
  handed : ∀ n why, (ti.handleConn shared script n).phase = .ended why →
    (ti.handleConn shared script n).egr.items = items
  emptied : ∀ n why, (ti.handleConn shared script n).phase = .ended why →
    (ti.handleConn shared script n).egr.st.Emptied
  flushed : (∀ item ∈ items, ti.Encodable item) →
    ∀ n why, (ti.handleConn shared script n).phase = .ended why →
      FlushedOnce ti decodeBundle (ti.handleConn shared script n).egr

section Reading

variable {ti : TCPIngress}

/-- Where the loop stands in a framed stream: what was handed on, what is at hand
and what will be delivered is the stream; or a read failed, and the items handed
on are the longest front of well-formed ones. -/
inductive LoopCuts (stream : Bytes) (items : List Handed) (script : List ReadResult) :
    LoopState ti.reader.State → Prop where
  | detecting {buffered : Bytes} (hnone : items = [])
      (hstream : stream = buffered ++ delivered script) :
      LoopCuts stream items script (.detect buffered)
  | cutting {buffered : Bytes} (hgood : ∀ item ∈ items, WellFormed ti item)
      (hstream : stream = spell Handed.raw items ++ (buffered ++ delivered script)) :
      LoopCuts stream items script (.framed buffered)
  | failed {why : Close} (hlongest : Longest (WellFormed ti) Handed.raw stream items) :
      LoopCuts stream items script (.failed why)

/-- Where the connection stands: in its loop, in a read the loop asked for, or at
its end. -/
inductive Conn.Cuts (stream : Bytes) (c : Conn ti.reader.State) : Prop where
  | running {loop : LoopState ti.reader.State} (hphase : c.phase = .running loop)
      (hloop : LoopCuts stream c.egr.items c.script loop)
  | reading {loop : LoopState ti.reader.State} (hread : c.Reading loop)
      (hlook : ti.look loop = .read) (hloop : LoopCuts stream c.egr.items c.script loop)
  | ended {why : Close} (hphase : c.phase = .ended why)
      (hlongest : Longest (WellFormed ti) Handed.raw stream c.egr.items)

@[simp] theorem Conn.flush_script (c : Conn ti.reader.State) : c.flush.script = c.script := by
  rw [Conn.flush]
  split <;> rfl

@[simp] theorem ConnEgress.items_flushEgr (egr : ConnEgress) :
    (egr.flushEgr ti).items = egr.items := rfl

theorem ConnEgress.items_hand (egr : ConnEgress) (item : Handed) :
    (egr.hand ti item).items = egr.items ++ [item] := by
  rw [ConnEgress.items, ConnEgress.hand, List.map_append]
  rfl

@[simp] theorem Conn.flush_handed (c : Conn ti.reader.State) :
    c.flush.egr.handed = c.egr.handed := by
  rw [Conn.flush]
  split <;> rfl

@[simp] theorem Conn.flush_items (c : Conn ti.reader.State) : c.flush.egr.items = c.egr.items := by
  rw [ConnEgress.items, Conn.flush_handed]
  rfl

@[simp] theorem Conn.add_script (c : Conn ti.reader.State) : c.add.script = c.script := by
  rw [Conn.add]
  split
  · rw [Conn.flush_script]
  · rfl

@[simp] theorem Conn.add_items (c : Conn ti.reader.State) : c.add.egr.items = c.egr.items := by
  rw [Conn.add]
  split
  · rw [Conn.flush_items]
  · rfl

/-- How much is left to do: bytes at hand, and results to come.  A read under way
is one step further than the loop that asked for it. -/
def LoopState.weight {S : Type} : LoopState S → Nat
  | .detect buffered => buffered.length + 4
  | .framed buffered => buffered.length + 3
  | .failed _ => 1
  | _ => 0

def ConnPhase.weight {S : Type} : ConnPhase S → Nat
  | .running loop => loop.weight
  | .lingering loop | .blocked loop => loop.weight - 1
  | .ended _ => 0

def scriptWeight : List ReadResult → Nat
  | [] => 0
  | .data chunk :: rest => chunk.1.length + 2 + scriptWeight rest
  | _ :: rest => 1 + scriptWeight rest

def Conn.weight (c : Conn ti.reader.State) : Nat :=
  c.phase.weight + scriptWeight c.script

theorem Conn.Reading.weight {c : Conn ti.reader.State} {loop : LoopState ti.reader.State}
    (hread : c.Reading loop) : c.weight = loop.weight - 1 + scriptWeight c.script := by
  rcases hread with hphase | hphase <;> rw [Conn.weight, hphase] <;> rfl

theorem Conn.weight_of_running {c : Conn ti.reader.State} {loop : LoopState ti.reader.State}
    (hphase : c.phase = .running loop) : c.weight = loop.weight + scriptWeight c.script := by
  rw [Conn.weight, hphase]
  rfl

theorem Conn.step_read {c : Conn ti.reader.State} {loop : LoopState ti.reader.State}
    (hphase : c.phase = .running loop) (hlook : ti.look loop = .read) :
    c.step.Reading loop ∧ c.step.script = c.script ∧ c.step.egr.items = c.egr.items := by
  have hstep : c.step = c.read loop := by
    rw [Conn.step, hphase]
    simp only [hlook]
  rw [hstep, Conn.read]
  split
  · exact ⟨Or.inl rfl, rfl, rfl⟩
  · exact ⟨Or.inr rfl, c.flush_script, c.flush_items⟩

theorem Conn.step_settle {c : Conn ti.reader.State} {loop next : LoopState ti.reader.State}
    (hphase : c.phase = .running loop) (hlook : ti.look loop = .settle next) :
    c.step = { c with phase := .running next } := by
  rw [Conn.step, hphase]
  simp only [hlook]

theorem Conn.step_hand {c : Conn ti.reader.State} {loop next : LoopState ti.reader.State}
    {item : Handed} (hphase : c.phase = .running loop) (hlook : ti.look loop = .hand item next) :
    c.step.phase = .running next ∧ c.step.script = c.script ∧
      c.step.egr.items = c.egr.items ++ [item] := by
  have hstep : c.step =
      { Conn.add { c with egr := c.egr.hand ti item } with phase := .running next } := by
    rw [Conn.step, hphase]
    simp only [hlook]
  rw [hstep]
  refine ⟨rfl, Conn.add_script _, ?_⟩
  rw [← c.egr.items_hand item]
  exact Conn.add_items _

theorem Conn.step_close {c : Conn ti.reader.State} {loop : LoopState ti.reader.State} {why : Close}
    (hphase : c.phase = .running loop) (hlook : ti.look loop = .close why) :
    c.step.phase = .ended why ∧ c.step.script = c.script ∧ c.step.egr.items = c.egr.items := by
  have hstep : c.step = { c with phase := .ended why, egr := c.egr.flushEgr ti } := by
    rw [Conn.step, hphase]
    simp only [hlook]
  rw [hstep]
  exact ⟨rfl, rfl, rfl⟩

/-- Either read, with a timeout that is followed by a read. -/
theorem Conn.step_eq_connRead {c : Conn ti.reader.State} {loop : LoopState ti.reader.State}
    (hread : c.Reading loop) : ∃ timedOut, c.step = c.connRead loop timedOut ∧
      ∀ rest, (timedOut rest).Reading loop ∧ (timedOut rest).script = rest ∧
        (timedOut rest).egr.items = c.egr.items := by
  rcases hread with hphase | hphase
  · refine ⟨fun rest => { c.flush with phase := .blocked loop, script := rest }, ?_, ?_⟩
    · rw [Conn.step, hphase]
    · exact fun rest => ⟨Or.inr rfl, rfl, c.flush_items⟩
  · refine ⟨fun rest => { c with script := rest }, ?_, ?_⟩
    · rw [Conn.step, hphase]
    · exact fun rest => ⟨Or.inr hphase, rfl, rfl⟩

/-- What a read comes to: an error, bytes, or a timeout and a further read. -/
theorem Conn.step_reading {c : Conn ti.reader.State} {loop : LoopState ti.reader.State}
    (hread : c.Reading loop) : c.step.egr.items = c.egr.items ∧
      ((c.step.phase = .running (ti.resume loop none) ∧ delivered c.script = [] ∧
          scriptWeight c.step.script ≤ scriptWeight c.script) ∨
        (∃ chunk rest, c.script = .data chunk :: rest ∧ c.step.script = rest ∧
          c.step.phase = .running (ti.resume loop (some chunk.1))) ∨
        ∃ rest, c.script = .timeout :: rest ∧ c.step.script = rest ∧ c.step.Reading loop) := by
  obtain ⟨timedOut, hstep, hagain⟩ := Conn.step_eq_connRead hread
  rw [hstep, Conn.connRead]
  cases hscript : c.script with
  | nil =>
      exact ⟨rfl, Or.inl ⟨rfl, rfl, Nat.le_refl _⟩⟩
  | cons result rest =>
      cases result with
      | fail => exact ⟨rfl, Or.inl ⟨rfl, rfl, Nat.le_add_left _ _⟩⟩
      | data chunk => exact ⟨rfl, Or.inr (Or.inl ⟨chunk, rest, rfl, rfl, rfl⟩)⟩
      | timeout =>
          obtain ⟨hreading, hrest, hitems⟩ := hagain rest
          exact ⟨hitems, Or.inr (Or.inr ⟨rest, rfl, hrest, hreading⟩)⟩

/-- A read that fails leaves the longest front of the stream. -/
theorem LoopCuts.fail {stream : Bytes} {items : List Handed} {script : List ReadResult}
    {loop : LoopState ti.reader.State} (hloop : LoopCuts stream items script loop)
    (hlook : ti.look loop = .read) (hend : delivered script = []) :
    ∃ why, ti.resume loop none = .failed why ∧
      Longest (WellFormed ti) Handed.raw stream items := by
  cases hloop with
  | detecting hnone hstream =>
      rename_i buffered
      have hfew : buffered.length < 4 := by
        by_contra hmany
        simp only [TCPIngress.look, hmany, ↓reduceIte] at hlook
        split_ifs at hlook
      have hshort : framedNext ti.fmt ti.fwd ti.cls buffered = .error .header := by
        rw [framedNext, if_pos (Nat.lt_trans hfew (by decide))]
      refine ⟨.detect, rfl, ?_⟩
      rw [hend, List.append_nil] at hstream
      subst hnone
      exact (framedNext_exact ti).longest (by simp) hstream hshort
  | cutting hgood hstream =>
      rename_i buffered
      rw [hend, List.append_nil] at hstream
      rcases look_framed_cases ti buffered with
        ⟨item, rest, _, hhand⟩ | ⟨why, hnext, _⟩
      · cases hhand.symm.trans hlook
      · refine ⟨why, ?_, (framedNext_exact ti).longest hgood hstream hnext⟩
        simp only [TCPIngress.resume, hnext]
  | failed hlongest => cases hlook

theorem LoopCuts.receive {stream : Bytes} {items : List Handed} {rest : List ReadResult}
    {chunk : { bytes : Bytes // bytes ≠ [] }} {loop : LoopState ti.reader.State}
    (hloop : LoopCuts stream items (.data chunk :: rest) loop) :
    LoopCuts stream items rest (ti.resume loop (some chunk.1)) ∧
      (ti.resume loop (some chunk.1)).weight ≤ loop.weight + chunk.1.length := by
  cases hloop with
  | detecting hnone hstream =>
      rename_i buffered
      refine ⟨.detecting hnone ?_, ?_⟩
      · rw [hstream, List.append_assoc]
        rfl
      · simp only [TCPIngress.resume, LoopState.weight, List.length_append]
        omega
  | cutting hgood hstream =>
      rename_i buffered
      refine ⟨.cutting hgood ?_, ?_⟩
      · rw [hstream, List.append_assoc]
        rfl
      · simp only [TCPIngress.resume, LoopState.weight, List.length_append]
        omega
  | failed hlongest => exact ⟨.failed hlongest, Nat.le_add_right _ _⟩

/-- A loop that reads has something left to do. -/
theorem LoopCuts.weight_of_read {stream : Bytes} {items : List Handed} {script : List ReadResult}
    {loop : LoopState ti.reader.State} (hloop : LoopCuts stream items script loop)
    (hlook : ti.look loop = .read) : 3 ≤ loop.weight := by
  cases hloop with
  | detecting => exact Nat.le_trans (by decide) (Nat.le_add_left 4 _)
  | cutting => exact Nat.le_add_left 3 _
  | failed => cases hlook

theorem LoopCuts.timeout {stream : Bytes} {items : List Handed} {rest : List ReadResult}
    {loop : LoopState ti.reader.State}
    (hloop : LoopCuts stream items (.timeout :: rest) loop) : LoopCuts stream items rest loop := by
  cases hloop with
  | detecting hnone hstream => exact .detecting hnone hstream
  | cutting hgood hstream => exact .cutting hgood hstream
  | failed hlongest => exact .failed hlongest

/-- A read keeps the place in the stream, and comes closer to the end. -/
theorem LoopCuts.step_reading {stream : Bytes} {c : Conn ti.reader.State}
    {loop : LoopState ti.reader.State} (hread : c.Reading loop) (hlook : ti.look loop = .read)
    (hloop : LoopCuts stream c.egr.items c.script loop) :
    c.step.Cuts stream ∧ c.step.weight < c.weight := by
  have hmany := hloop.weight_of_read hlook
  rw [hread.weight]
  obtain ⟨hitems, ⟨hphase, hend, hless⟩ | ⟨chunk, rest, hscript, hrest, hphase⟩ |
    ⟨rest, hscript, hrest, hreading⟩⟩ := Conn.step_reading hread
  · obtain ⟨why, hfailed, hlongest⟩ := hloop.fail hlook hend
    rw [hfailed] at hphase
    rw [← hitems] at hlongest
    refine ⟨.running hphase (.failed hlongest), ?_⟩
    rw [Conn.weight_of_running hphase, LoopState.weight]
    omega
  · rw [hscript] at hloop
    obtain ⟨hnext, hgrown⟩ := hloop.receive
    rw [← hitems, ← hrest] at hnext
    refine ⟨.running hphase hnext, ?_⟩
    rw [Conn.weight_of_running hphase, hrest, hscript, scriptWeight]
    omega
  · rw [hscript] at hloop
    have hnext := hloop.timeout
    rw [← hitems, ← hrest] at hnext
    refine ⟨.reading hreading hlook hnext, ?_⟩
    have hone : scriptWeight (.timeout :: rest) = 1 + scriptWeight rest := rfl
    rw [hreading.weight, hrest, hscript, hone]
    omega

/-- A loop that asks for a read stays where it is. -/
theorem LoopCuts.step_asks {stream : Bytes} {c : Conn ti.reader.State}
    {loop : LoopState ti.reader.State} (hphase : c.phase = .running loop)
    (hlook : ti.look loop = .read) (hloop : LoopCuts stream c.egr.items c.script loop) :
    c.step.Cuts stream ∧ c.step.weight < c.weight := by
  have hmany := hloop.weight_of_read hlook
  obtain ⟨hread, hscript, hitems⟩ := Conn.step_read hphase hlook
  rw [← hitems, ← hscript] at hloop
  refine ⟨.reading hread hlook hloop, ?_⟩
  rw [hread.weight, Conn.weight_of_running hphase, hscript]
  omega

/-- A loop that closes was handed the longest front of the stream. -/
theorem Conn.Cuts.step_closes {stream : Bytes} {c : Conn ti.reader.State}
    {loop : LoopState ti.reader.State} {why : Close} (hphase : c.phase = .running loop)
    (hlook : ti.look loop = .close why) (hweight : 0 < loop.weight)
    (hlongest : Longest (WellFormed ti) Handed.raw stream c.egr.items) :
    c.step.Cuts stream ∧ c.step.weight < c.weight := by
  obtain ⟨hended, hscript, hitems⟩ := Conn.step_close hphase hlook
  rw [← hitems] at hlongest
  refine ⟨.ended hended hlongest, ?_⟩
  rw [Conn.weight, hended, hscript, Conn.weight_of_running hphase, ConnPhase.weight]
  omega

theorem Conn.Cuts.step_detects {stream buffered : Bytes} (hstart : stream = [] ∨ framed stream)
    {c : Conn ti.reader.State} (hphase : c.phase = .running (.detect buffered))
    (hnone : c.egr.items = []) (hstream : stream = buffered ++ delivered c.script) :
    c.step.Cuts stream ∧ c.step.weight < c.weight := by
  by_cases hfew : buffered.length < 4
  · have hlook : ti.look (.detect buffered) = .read := by
      simp only [TCPIngress.look, hfew, ↓reduceIte]
    exact LoopCuts.step_asks hphase hlook (.detecting hnone hstream)
  · have hframed : framed buffered := by
      rcases hstart with hnone | ⟨_, hmagic⟩
      · rw [hstream] at hnone
        exact absurd (by rw [(List.append_eq_nil_iff.mp hnone).1]; decide) hfew
      · rw [hstream, uint32At_append_left (Nat.not_lt.mp hfew)] at hmagic
        exact ⟨Nat.not_lt.mp hfew, hmagic⟩
    have hlook : ti.look (.detect buffered) = _ := look_detect_of_framed hframed
    rw [Conn.step_settle hphase hlook, Conn.weight_of_running hphase]
    refine ⟨.running rfl (.cutting ?_ ?_), ?_⟩
    · intro item hitem
      rw [show ConnEgress.items c.egr = [] from hnone] at hitem
      cases hitem
    · rw [show ConnEgress.items c.egr = [] from hnone]
      exact hstream
    · exact Nat.add_lt_add_right (Nat.lt_succ_self _) _

theorem Conn.Cuts.step_cuts {stream buffered : Bytes} {c : Conn ti.reader.State}
    (hphase : c.phase = .running (.framed buffered))
    (hgood : ∀ item ∈ c.egr.items, WellFormed ti item)
    (hstream : stream = spell Handed.raw c.egr.items ++ (buffered ++ delivered c.script)) :
    c.step.Cuts stream ∧ c.step.weight < c.weight := by
  have hexact := framedNext_exact ti
  rcases look_framed_cases ti buffered with
    ⟨item, rest, hnext, hlook⟩ | ⟨why, hnext, ⟨_, hlook⟩ | ⟨hstop, hlook⟩⟩
  · obtain ⟨hrunning, hscript, hitems⟩ := Conn.step_hand hphase hlook
    obtain ⟨hitem, hbytes⟩ := hexact.ok_iff.mp hnext
    refine ⟨.running hrunning (.cutting ?_ ?_), ?_⟩
    · rw [hitems]
      intro other hother
      rcases List.mem_append.mp hother with hold | hlast
      · exact hgood other hold
      · rw [List.mem_singleton.mp hlast]
        exact hitem
    · rw [hitems, hscript, spell_append, hstream, hbytes]
      simp only [spell, List.map_cons, List.map_nil, List.flatten_cons, List.flatten_nil,
        List.append_nil, List.append_assoc]
    · have hlonger := congrArg List.length hbytes
      rw [List.length_append] at hlonger
      have hpos := List.length_pos_iff.mpr (hexact.nonempty hitem)
      rw [Conn.weight_of_running hrunning, Conn.weight_of_running hphase, hscript,
        LoopState.weight, LoopState.weight]
      omega
  · exact LoopCuts.step_asks hphase hlook (.cutting hgood hstream)
  · apply Conn.Cuts.step_closes hphase hlook (Nat.succ_pos _)
    exact hexact.longest hgood hstream (framedNext_stop hnext hstop _)

/-- Every step keeps the place in the stream, and comes closer to the end. -/
theorem Conn.Cuts.step {stream : Bytes} (hstart : stream = [] ∨ framed stream)
    {c : Conn ti.reader.State} (hcuts : c.Cuts stream) :
    c.step.Cuts stream ∧ ((∃ why, c.phase = .ended why) ∨ c.step.weight < c.weight) := by
  cases hcuts with
  | ended hphase hlongest =>
      have hstep : c.step = c := by rw [Conn.step, hphase]
      rw [hstep]
      exact ⟨.ended hphase hlongest, Or.inl ⟨_, hphase⟩⟩
  | reading hread hlook hloop =>
      exact (hloop.step_reading hread hlook).imp_right Or.inr
  | running hphase hloop =>
      refine And.imp_right Or.inr ?_
      cases hloop with
      | detecting hnone hstream => exact Conn.Cuts.step_detects hstart hphase hnone hstream
      | cutting hgood hstream => exact Conn.Cuts.step_cuts hphase hgood hstream
      | failed hlongest => exact Conn.Cuts.step_closes hphase rfl Nat.one_pos hlongest

theorem Conn.Cuts.ends {stream : Bytes} (hstart : stream = [] ∨ framed stream)
    {c : Conn ti.reader.State} (hcuts : c.Cuts stream) :
    ∃ n why, (Conn.step^[n] c).phase = .ended why := by
  -- Strong induction on what is left to do.
  induction hweight : c.weight using Nat.strong_induction_on generalizing c with
  | h weight ih =>
      obtain ⟨hnext, ⟨why, hended⟩ | hless⟩ := hcuts.step hstart
      · exact ⟨0, why, hended⟩
      · obtain ⟨n, why, hended⟩ := ih _ (hweight ▸ hless) hnext rfl
        exact ⟨n + 1, why, hended⟩

theorem handleConn_cuts (shared : Shared) {script : List ReadResult}
    (hstart : delivered script = [] ∨ framed (delivered script)) (n : Nat) :
    (ti.handleConn shared script n).Cuts (delivered script) := by
  induction n with
  | zero => exact .running rfl (.detecting rfl rfl)
  | succ n ih =>
      rw [TCPIngress.handleConn, Function.iterate_succ_apply']
      exact (ih.step hstart).1

theorem LoopCuts.front {stream : Bytes} {items : List Handed} {script : List ReadResult}
    {loop : LoopState ti.reader.State} (hloop : LoopCuts stream items script loop) :
    (∀ item ∈ items, WellFormed ti item) ∧ ∃ tail, stream = spell Handed.raw items ++ tail := by
  cases hloop with
  | detecting hnone hstream =>
      rw [hnone]
      refine ⟨?_, stream, rfl⟩
      intro item hitem
      cases hitem
  | cutting hgood hstream => exact ⟨hgood, _, hstream⟩
  | failed hlongest => exact ⟨hlongest.good, hlongest.front⟩

/-- What was handed on at any time is a front of well-formed items. -/
theorem Conn.Cuts.front {stream : Bytes} {c : Conn ti.reader.State} (hcuts : c.Cuts stream) :
    (∀ item ∈ c.egr.items, WellFormed ti item) ∧
      ∃ tail, stream = spell Handed.raw c.egr.items ++ tail := by
  cases hcuts with
  | running _ hloop => exact hloop.front
  | reading _ _ hloop => exact hloop.front
  | ended _ hlongest => exact ⟨hlongest.good, hlongest.front⟩

theorem Conn.Cuts.longest {stream : Bytes} {c : Conn ti.reader.State} (hcuts : c.Cuts stream)
    {why : Close} (hended : c.phase = .ended why) :
    Longest (WellFormed ti) Handed.raw stream c.egr.items := by
  cases hcuts with
  | running hphase _ => cases hphase.symm.trans hended
  | reading hread _ _ =>
      rcases hread with hphase | hphase
      · cases hphase.symm.trans hended
      · cases hphase.symm.trans hended
  | ended _ hlongest => exact hlongest

/-- However its bytes arrive, a connection that has ended was handed what the loop
over the whole stream hands on. -/
theorem handleConn_refines (shared : Shared) {script : List ReadResult}
    (hframed : framed (delivered script)) {n : Nat} {why : Close}
    (hended : (ti.handleConn shared script n).phase = .ended why) (fuel : Nat) :
    ∃ close, tcpHandleConn ti.fmt ti.fwd ti.remote ti.cls
        ((ti.handleConn shared script n).egr.items.length + (fuel + 1)) (delivered script) =
      ((ti.handleConn shared script n).egr.items, some close) := by
  have hlongest := (handleConn_cuts shared (Or.inr hframed) n).longest hended
  rw [tcpHandleConn, if_neg (Nat.not_lt.mpr hframed.1),
    if_neg (tag_ne_of_magic hframed.1 hframed.2), if_pos hframed.2]
  exact hlongest.loop (framedNext_exact ti) fuel

variable {decodeBundle : Bytes → Option Bundle}

/-- A connection whose stream is empty or framed hands on the longest front of
well-formed items. -/
theorem readExactly_of_framed (hlaws : BundleLaws ti.env)
    (hcodec : BundleCodec ti.env decodeBundle) (shared : Shared) {script : List ReadResult}
    (hstart : delivered script = [] ∨ framed (delivered script)) :
    ∃ items, Longest (WellFormed ti) Handed.raw (delivered script) items ∧
      ReadExactly ti decodeBundle shared script items := by
  have hcuts : ∀ n, (ti.handleConn shared script n).Cuts (delivered script) :=
    handleConn_cuts shared hstart
  obtain ⟨last, why, hlast⟩ := (hcuts 0).ends hstart
  have hlongest := (hcuts last).longest hlast
  have hsame : ∀ n why, (ti.handleConn shared script n).phase = .ended why →
      (ti.handleConn shared script n).egr.items = (ti.handleConn shared script last).egr.items :=
    fun n why hended => ((hcuts n).longest hended).unique hlongest
  refine ⟨_, hlongest, ⟨last, why, hlast⟩, ?_, hsame, ?_, ?_⟩
  · intro n
    obtain ⟨hgood, tail, htail⟩ := (hcuts n).front
    exact hlongest.longest _ tail hgood htail
  · intro n why hended
    exact (handleConn_counted ti shared script n).ended why hended
  · intro hitems n why hended
    apply handleConn_flushedOnce ti hlaws hcodec shared script n hended
    intro h hh
    apply hitems
    rw [← hsame n why hended]
    exact List.mem_map_of_mem hh

/-- A stream of well-formed items is handed on item by item, however its bytes
arrive; of any other framed stream the longest front of such items is.  The
connection ends, and what its items put on its egress is flushed, unless one of
them is a transaction too long for the bundle it waits for. -/
theorem framedStream_exact (hlaws : BundleLaws ti.env) (hcodec : BundleCodec ti.env decodeBundle)
    (shared : Shared) (script : List ReadResult) :
    (∀ items, (∀ item ∈ items, WellFormed ti item) →
        delivered script = spell Handed.raw items →
          ReadExactly ti decodeBundle shared script items) ∧
      (framed (delivered script) →
        ∃ items, Longest (WellFormed ti) Handed.raw (delivered script) items ∧
          ReadExactly ti decodeBundle shared script items) := by
  constructor
  · intro items hgood hstream
    obtain ⟨taken, hlongest, hread⟩ := readExactly_of_framed hlaws hcodec shared
      (hstream.symm ▸ framed_spell hgood)
    obtain rfl := hlongest.eq_of_spell (framedNext_exact ti) hgood hstream
    exact hread
  · intro hframed
    exact readExactly_of_framed hlaws hcodec shared (Or.inr hframed)

end Reading

section Sample

open Reference

def sampleAnnounce : Bytes :=
  leading 0x30 0 ++ List.replicate 56 0

/-- A frame, an announce and a frame, in pieces that end inside a header and
inside a payload. -/
def mixedItems : List Handed :=
  [.dispatchClass firstFrame .transaction, .forwardControl sampleAnnounce,
    .dispatchClass secondFrame .transaction]

def mixedScript : List ReadResult :=
  [.data ⟨firstFrame.take 3, by decide⟩,
    .data ⟨firstFrame.drop 3 ++ sampleAnnounce.take 50, by decide⟩,
    .timeout, .data ⟨sampleAnnounce.drop 50 ++ secondFrame.take 100, by decide⟩,
    .data ⟨secondFrame.drop 100, by decide⟩, .fail]

theorem wellFormed_mixedItems (linger : Int) :
    ∀ item ∈ mixedItems, WellFormed (sampleIngress coalescingForwarder linger) item := by
  intro item hitem
  simp only [mixedItems, List.mem_cons, List.not_mem_nil, or_false] at hitem
  rcases hitem with rfl | rfl | rfl
  · exact wellFormed_sampleFrame rfl (sampleID 1) (by decide)
  · exact .announce rfl rfl rfl
  · exact wellFormed_sampleFrame rfl (sampleID 1) (by decide)

theorem framedStream_exact_sample :
    ReadExactly (sampleIngress coalescingForwarder 5) decodeBundle state.shared mixedScript
      mixedItems := by
  have hlaws : BundleLaws (sampleIngress coalescingForwarder 5).env := bundleLaws
  have hcodec : BundleCodec (sampleIngress coalescingForwarder 5).env decodeBundle := bundleCodec
  refine (framedStream_exact hlaws hcodec state.shared mixedScript).1 mixedItems
    (wellFormed_mixedItems 5) ?_
  decide +kernel

/-- A stream of one well-formed frame of 65536 bytes is not read as it should be:
nothing of what its frame put on the egress is flushed. -/
theorem longStream_not_exact :
    WellFormed (sampleIngress jumboForwarder 0) (txItem longTx) ∧
      delivered [.data ⟨(txItem longTx).raw, txItem_raw_ne_nil longTx⟩] =
        spell Handed.raw [txItem longTx] ∧
      ¬ ∀ n why, (jumboConn longTx n).phase = .ended why →
        FlushedOnce (sampleIngress jumboForwarder 0) decodeBundle (jumboConn longTx n).egr := by
  obtain ⟨hlong, hfits⟩ := longTx_lengths
  refine ⟨wellFormed_sampleFrame rfl (sampleID 1) (Nat.le_trans hfits (by decide)), rfl, ?_⟩
  intro hflushed
  exact jumboConn_not_flushedOnce hlong hfits (hflushed 7 .header (jumboConn_run hlong hfits).1)

end Sample

end ShardProxy
