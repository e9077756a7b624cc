/-
Cutting a stream into the items it is made of.  A reader that takes an item off
exactly when the stream starts with the bytes of a good item cuts every stream
in one way: what it takes before it stops are the items of the longest front
that is made of good items, so no other cutting goes further.
-/
import ShardProxy.Lib.StreamLoop

namespace StreamLoop

variable {B I E : Type}

/-- The bytes of items, one after the other. -/
def spell (bytes : I → List B) (items : List I) : List B :=
  (items.map bytes).flatten

/-- The reader takes an item off exactly when the stream starts with it. -/
structure Exact (next : List B → Except E (I × List B)) (Good : I → Prop)
    (bytes : I → List B) : Prop where
  ok_iff : ∀ {stream item rest}, next stream = .ok (item, rest) ↔
    Good item ∧ stream = bytes item ++ rest
  nonempty : ∀ {item}, Good item → bytes item ≠ []

/-- The items of the longest front of a stream that is made of good items. -/
structure Longest (Good : I → Prop) (bytes : I → List B) (stream : List B) (items : List I) :
    Prop where
  good : ∀ item ∈ items, Good item
  front : ∃ tail, stream = spell bytes items ++ tail
  longest : ∀ others tail, (∀ item ∈ others, Good item) → stream = spell bytes others ++ tail →
    others <+: items

variable {next : List B → Except E (I × List B)} {Good : I → Prop} {bytes : I → List B}

theorem spell_cons (item : I) (items : List I) :
    spell bytes (item :: items) = bytes item ++ spell bytes items := rfl

theorem spell_append (items others : List I) :
    spell bytes (items ++ others) = spell bytes items ++ spell bytes others := by
  rw [spell, List.map_append, List.flatten_append]
  rfl

/-- Where the reader stops, no other cutting goes on. -/
theorem Exact.front_of_stop (hexact : Exact next Good bytes) {others : List I}
    (hothers : ∀ item ∈ others, Good item) {items : List I} (hitems : ∀ item ∈ items, Good item)
    {stop : E} {last tail : List B} (hstop : next last = .error stop)
    (hsame : spell bytes items ++ last = spell bytes others ++ tail) : others <+: items := by
  induction others generalizing items with
  | nil => exact List.nil_prefix
  | cons other rest ih =>
      have htake : next (spell bytes (other :: rest) ++ tail) =
          .ok (other, spell bytes rest ++ tail) := by
        refine hexact.ok_iff.mpr ⟨hothers other List.mem_cons_self, ?_⟩
        rw [spell_cons, List.append_assoc]
      cases items with
      | nil =>
          have hlast : last = spell bytes (other :: rest) ++ tail := hsame
          rw [← hlast, hstop] at htake
          cases htake
      | cons item items =>
          have hfirst : next (spell bytes (item :: items) ++ last) =
              .ok (item, spell bytes items ++ last) := by
            refine hexact.ok_iff.mpr ⟨hitems item List.mem_cons_self, ?_⟩
            rw [spell_cons, List.append_assoc]
          rw [hsame, htake] at hfirst
          obtain ⟨rfl, hrest⟩ := Prod.mk.inj (Except.ok.inj hfirst)
          have hshorter := ih (fun item hitem => hothers item (List.mem_cons_of_mem _ hitem))
            (fun item hitem => hitems item (List.mem_cons_of_mem _ hitem)) hrest.symm
          exact (List.prefix_cons_inj other).mpr hshorter

/-- What a reader takes before it stops is the longest front of good items. -/
theorem Exact.longest (hexact : Exact next Good bytes) {items : List I}
    (hitems : ∀ item ∈ items, Good item) {stop : E} {last stream : List B}
    (hstream : stream = spell bytes items ++ last) (hstop : next last = .error stop) :
    Longest Good bytes stream items where
  good := hitems
  front := ⟨last, hstream⟩
  longest _ _ hothers hsame :=
    hexact.front_of_stop hothers hitems hstop (hstream.symm.trans hsame)

theorem Longest.unique {stream : List B} {items others : List I}
    (hitems : Longest Good bytes stream items) (hothers : Longest Good bytes stream others) :
    items = others := by
  obtain ⟨tail, htail⟩ := hitems.front
  obtain ⟨rest, hrest⟩ := hothers.front
  have hfirst := hothers.longest items tail hitems.good htail
  have hsecond := hitems.longest others rest hothers.good hrest
  exact hfirst.eq_of_length_le hsecond.length_le

/-- The loop takes the longest front and stops. -/
theorem Longest.loop (hexact : Exact next Good bytes) {stream : List B} {items : List I}
    (hlongest : Longest Good bytes stream items) (fuel : Nat) :
    ∃ stop, loop next (items.length + (fuel + 1)) stream = (items, some stop) := by
  obtain ⟨tail, htail⟩ := hlongest.front
  have hnext : ∀ item ∈ items, ∀ rest, next (bytes item ++ rest) = .ok (item, rest) :=
    fun item hitem rest => hexact.ok_iff.mpr ⟨hlongest.good item hitem, rfl⟩
  cases hlast : next tail with
  | ok taken =>
      -- One more item would make a longer front.
      obtain ⟨item, rest⟩ := taken
      obtain ⟨hitem, rfl⟩ := hexact.ok_iff.mp hlast
      have hmore : stream = spell bytes (items ++ [item]) ++ rest := by
        rw [htail, spell_append, List.append_assoc, spell_cons, List.append_assoc]
        rfl
      have hfront := hlongest.longest (items ++ [item]) rest (by
        intro other hother
        rcases List.mem_append.mp hother with hold | hnew
        · exact hlongest.good other hold
        · rw [List.mem_singleton.mp hnew]
          exact hitem) hmore
      have hlength := hfront.length_le
      rw [List.length_append, List.length_singleton] at hlength
      omega
  | error stop =>
      refine ⟨stop, ?_⟩
      have hloop := loop_items hnext (fuel + 1) tail
      rw [loop_of_error hlast, List.append_nil] at hloop
      rw [htail]
      exact hloop

/-- The longest front of a stream of good items is all of them. -/
theorem Longest.eq_of_spell (hexact : Exact next Good bytes) {items others : List I}
    {stream : List B} (hlongest : Longest Good bytes stream items)
    (hothers : ∀ item ∈ others, Good item) (hstream : stream = spell bytes others) :
    items = others := by
  obtain ⟨more, rfl⟩ := hlongest.longest others [] hothers (by rw [hstream, List.append_nil])
  obtain ⟨tail, htail⟩ := hlongest.front
  cases more with
  | nil => exact List.append_nil others
  | cons item rest =>
      have hnone : spell bytes (item :: rest) ++ tail = [] := by
        rw [hstream, spell_append, List.append_assoc] at htail
        exact List.append_cancel_left (htail.symm.trans (List.append_nil _).symm)
      have hitem : Good item := hlongest.good item (List.mem_append_right _ List.mem_cons_self)
      rw [spell_cons, List.append_assoc] at hnone
      exact absurd (List.append_eq_nil_iff.mp hnone).1 (hexact.nonempty hitem)

end StreamLoop
