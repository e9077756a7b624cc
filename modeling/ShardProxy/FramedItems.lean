/-
The items of a framed stream: frames whose header declares the payload behind
it, within the bounds of the lane, and group announces.  The framed loop takes
an item off exactly when the bytes it has start with a whole one, and stops for
good only at what no further bytes can mend.
-/
import ShardProxy.LaneBounds
import ShardProxy.Lib.StreamCut
import ShardProxy.TcpConnection

namespace ShardProxy

open ByteField StreamLoop

/-- An item of a framed stream: a frame whose header declares its payload, within
the bounds, or a group announce. -/
inductive WellFormed (ti : TCPIngress) : Handed → Prop where
  | frame {raw : Bytes} {hdrSize lenAt : Nat} (hmagic : uint32At raw 0 = magicBSV)
      (hshape : frameShape (byteAt raw 6) = some (hdrSize, lenAt))
      (hsize : raw.length = hdrSize + (uint32At raw lenAt).toNat)
      (hceiling : (uint32At raw lenAt).toNat ≤ defaultMaxObject)
      (hbound : byteAt raw 6 = frameVerV9 → 0 < ti.fwd.beefMaxObject →
        ((uint32At raw lenAt).toNat : Int) ≤ ti.fwd.beefMaxObject) :
      WellFormed ti (.dispatchClass raw ti.cls)
  | announce {raw : Bytes} (hmagic : uint32At raw 0 = magicBSV)
      (htype : byteAt raw 6 = ti.fmt.msgTypeSubtreeGroupAnnounce)
      (hsize : raw.length = subtreeGroupAnnounceSize) : WellFormed ti (.forwardControl raw)

section Cutting

variable {ti : TCPIngress}

/-- A well-formed item at the head of the stream is taken off it. -/
theorem WellFormed.framedNext {item : Handed} (hitem : WellFormed ti item) (rest : Bytes) :
    framedNext ti.fmt ti.fwd ti.cls (item.raw ++ rest) = .ok (item, rest) := by
  cases hitem with
  | @frame raw hdrSize lenAt hmagic hshape hsize hceiling hbound =>
      refine (framedNext_frame hmagic hshape hsize hceiling rest).trans (if_neg ?_)
      rintro ⟨hnine, hpositive, hover⟩
      exact absurd hover (Int.not_lt.mpr (hbound hnine hpositive))
  | @announce raw hmagic htype hsize =>
      have hwhole : raw.length = 64 := hsize
      have hlength : (raw ++ rest).length = 64 + rest.length := by
        rw [List.length_append, hwhole]
      have hfirst : uint32At (raw ++ rest) 0 = magicBSV := by
        rw [uint32At_append_left (by omega) rest]
        exact hmagic
      have hsame : byteAt (raw ++ rest) 6 = ti.fmt.msgTypeSubtreeGroupAnnounce := by
        rw [byteAt_append_left (by omega)]
        exact htype
      have hlegacy : ¬ (raw ++ rest).length < headerSizeLegacy := by
        rw [hlength, headerSizeLegacy]
        omega
      have hthere : ¬ (raw ++ rest).length < subtreeGroupAnnounceSize := by
        rw [hlength, subtreeGroupAnnounceSize]
        omega
      change ShardProxy.framedNext ti.fmt ti.fwd ti.cls (raw ++ rest) = _
      rw [ShardProxy.framedNext, if_neg hlegacy, if_neg (not_not_intro hfirst), if_pos hsame,
        if_neg hthere, ← hsize, List.take_left, List.drop_left]

/-- What is taken off the stream is a well-formed item. -/
theorem wellFormed_of_framedNext {stream rest : Bytes} {item : Handed}
    (hnext : framedNext ti.fmt ti.fwd ti.cls stream = .ok (item, rest)) :
    WellFormed ti item ∧ stream = item.raw ++ rest := by
  rw [framedNext] at hnext
  split_ifs at hnext with hlegacy hmagic htype hless
  · obtain ⟨rfl, rfl⟩ := Prod.mk.inj (Except.ok.inj hnext)
    have hcut := (List.take_append_drop subtreeGroupAnnounceSize stream).symm
    have hsize : (stream.take subtreeGroupAnnounceSize).length = 64 :=
      List.length_take_of_le (Nat.not_lt.mp hless)
    refine ⟨.announce ?_ ?_ hsize, hcut⟩
    · rw [← uint32At_append_left (by omega) (stream.drop subtreeGroupAnnounceSize), ← hcut]
      exact not_not.mp hmagic
    · rw [← byteAt_append_left (by omega) (stream.drop subtreeGroupAnnounceSize), ← hcut]
      exact htype
  · rw [readFrame] at hnext
    split at hnext
    · cases hnext
    · rename_i hdrSize payLen hsizes
      split_ifs at hnext with hceiling hopen hpayload
      obtain ⟨rfl, rfl⟩ := Prod.mk.inj (Except.ok.inj hnext)
      obtain ⟨lenAt, hshape, _, hpay⟩ := (frameSizes_ok_iff (Nat.not_lt.mp hlegacy)).mp hsizes
      obtain ⟨hfirst, hfield⟩ := frameShape_sizes hshape
      have hlow : headerSizeLegacy = 44 := rfl
      have hcut := (List.take_append_drop (hdrSize + payLen) stream).symm
      have hsize : (stream.take (hdrSize + payLen)).length = hdrSize + payLen :=
        List.length_take_of_le (Nat.not_lt.mp hpayload)
      have hversion : byteAt (stream.take (hdrSize + payLen)) 6 = byteAt stream 6 := by
        rw [← byteAt_append_left (by omega) (stream.drop (hdrSize + payLen)), ← hcut]
      have hlen : uint32At (stream.take (hdrSize + payLen)) lenAt = uint32At stream lenAt := by
        rw [← uint32At_append_left (by omega) (stream.drop (hdrSize + payLen)), ← hcut]
      refine ⟨.frame ?_ (hversion.symm ▸ hshape) ?_ ?_ ?_, hcut⟩
      · rw [← uint32At_append_left (by omega) (stream.drop (hdrSize + payLen)), ← hcut]
        exact not_not.mp hmagic
      · rw [hlen, hsize, hpay]
      · rw [hlen, ← hpay]
        exact Nat.not_lt.mp hceiling
      · intro hnine hpositive
        rw [hversion] at hnine
        rw [hlen, ← hpay]
        exact Int.not_lt.mp fun hover => hopen ⟨hnine, hpositive, hover⟩

/-- What the loop stops at stays so, whatever comes behind it. -/
theorem framedNext_stop {stream : Bytes} {why : Close}
    (hnext : framedNext ti.fmt ti.fwd ti.cls stream = .error why) (hstop : why.short = false)
    (more : Bytes) : framedNext ti.fmt ti.fwd ti.cls (stream ++ more) = .error why := by
  have hlength : (stream ++ more).length = stream.length + more.length := List.length_append
  have hlow : headerSizeLegacy = 44 := rfl
  rw [framedNext] at hnext
  split_ifs at hnext with hlegacy hmagic htype hless
  · cases hnext
    cases hstop
  · rw [framedNext, if_neg (by omega), if_pos]
    · exact hnext
    · rw [uint32At_append_left (by omega)]
      exact hmagic
  · cases hnext
    cases hstop
  · have hfirst : uint32At (stream ++ more) 0 = magicBSV := by
      rw [uint32At_append_left (by omega)]
      exact not_not.mp hmagic
    have hversion : byteAt (stream ++ more) 6 = byteAt stream 6 :=
      byteAt_append_left (by omega) more
    rw [framedNext, if_neg (by omega), if_neg (not_not_intro hfirst), hversion, if_neg htype,
      readFrame]
    rw [readFrame] at hnext
    split at hnext
    · rename_i close hsizes
      cases hnext
      -- Only an unknown version is final here.
      rw [frameSizes] at hsizes
      split_ifs at hsizes with hone hknown hheader
      · cases hsizes
        cases hstop
      · cases hsizes
        rw [frameSizes, hversion, if_neg hone, if_neg hknown]
    · rename_i hdrSize payLen hsizes
      obtain ⟨lenAt, hshape, hthere, hpay⟩ := (frameSizes_ok_iff (Nat.not_lt.mp hlegacy)).mp hsizes
      have hfield := (frameShape_sizes hshape).2
      have hsame : frameSizes (stream ++ more) = .ok (hdrSize, payLen) := by
        rw [frameSizes_ok_iff (by omega)]
        refine ⟨lenAt, ?_, by omega, ?_⟩
        · rw [hversion]
          exact hshape
        · rw [uint32At_append_left (by omega)]
          exact hpay
      rw [hsame, hversion]
      split_ifs at hnext with hceiling hopen hpayload
      · simp only [hceiling, ↓reduceIte]
        exact hnext
      · simp only [hceiling, hopen, ↓reduceIte]
        exact hnext
      · cases hnext
        cases hstop

/-- The framed loop cuts exactly the well-formed items off its stream. -/
theorem framedNext_exact (ti : TCPIngress) :
    Exact (framedNext ti.fmt ti.fwd ti.cls) (WellFormed ti) Handed.raw where
  ok_iff := by
    intro stream item rest
    refine ⟨wellFormed_of_framedNext, ?_⟩
    rintro ⟨hitem, rfl⟩
    exact hitem.framedNext rest
  nonempty := by
    intro item hitem hnone
    -- An empty item would be taken off the empty stream, which is too short.
    have htaken := hitem.framedNext []
    rw [hnone] at htaken
    cases htaken

theorem WellFormed.framed {item : Handed} (hitem : WellFormed ti item) : framed item.raw := by
  cases hitem with
  | @frame raw hdrSize lenAt hmagic hshape hsize _ _ =>
      have hlegacy : 44 ≤ hdrSize := (frameShape_sizes hshape).1
      have hlength : 4 ≤ raw.length := by omega
      exact ⟨hlength, hmagic⟩
  | @announce raw hmagic _ hsize =>
      have hlength : 4 ≤ raw.length := by
        rw [hsize]
        decide
      exact ⟨hlength, hmagic⟩

theorem framed_spell {items : List Handed} (hgood : ∀ item ∈ items, WellFormed ti item) :
    spell Handed.raw items = [] ∨ framed (spell Handed.raw items) := by
  cases items with
  | nil => exact Or.inl rfl
  | cons item rest =>
      have hmagic := (hgood item List.mem_cons_self).framed
      refine Or.inr ⟨?_, ?_⟩
      · rw [spell_cons, List.length_append]
        exact Nat.le_add_right_of_le hmagic.1
      · rw [spell_cons, uint32At_append_left hmagic.1]
        exact hmagic.2

/-- Once the magic is there, the connection is a framed one. -/
theorem look_detect_of_framed {buffered : Bytes} (hframed : framed buffered) :
    ti.look (.detect buffered) = .settle (.framed buffered) := by
  have htag := tag_ne_of_magic hframed.1 hframed.2
  simp only [TCPIngress.look, Nat.not_lt.mpr hframed.1, htag, hframed.2, ne_eq,
    not_true_eq_false, ↓reduceIte]

theorem look_framed_cases (ti : TCPIngress) (buffered : Bytes) :
    (∃ item rest, framedNext ti.fmt ti.fwd ti.cls buffered = .ok (item, rest) ∧
        ti.look (.framed buffered) = .hand item (.framed rest)) ∨
      ∃ why, framedNext ti.fmt ti.fwd ti.cls buffered = .error why ∧
        ((why.short = true ∧ ti.look (.framed buffered) = .read) ∨
          (why.short = false ∧ ti.look (.framed buffered) = .close why)) := by
  cases hnext : framedNext ti.fmt ti.fwd ti.cls buffered with
  | ok taken =>
      obtain ⟨item, rest⟩ := taken
      refine Or.inl ⟨item, rest, rfl, ?_⟩
      simp only [TCPIngress.look, hnext]
  | error why =>
      refine Or.inr ⟨why, rfl, ?_⟩
      cases hshort : why.short with
      | true =>
          left
          simp only [TCPIngress.look, hnext, hshort, ↓reduceIte, and_self]
      | false =>
          right
          simp only [TCPIngress.look, hnext, hshort, Bool.false_eq_true, ↓reduceIte, and_self]

end Cutting

end ShardProxy
