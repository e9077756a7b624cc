/-
Buffers and slices.  A heap keeps numbered buffers; a slice names a stretch of one and
shows whatever the buffer holds when it is read, so two slices of one buffer see each
other's changes.
-/
import Mathlib.Data.List.Basic
import Mathlib.Logic.Function.Basic

namespace SliceHeap

universe u

variable {α : Type u}

/-- A stretch of a buffer. -/
structure Slice where
  buf : Nat
  off : Nat
  len : Nat
deriving DecidableEq

/-- A stretch of a slice. -/
def Slice.within (s : Slice) (off len : Nat) : Slice :=
  ⟨s.buf, s.off + off, len⟩

/-- The contents of every buffer; those below `next` have been made. -/
structure Heap (α : Type u) where
  buffer : Nat → List α
  next : Nat

def Heap.read (h : Heap α) (s : Slice) : List α :=
  ((h.buffer s.buf).drop s.off).take s.len

def Heap.store (h : Heap α) (buf : Nat) (contents : List α) : Heap α :=
  { h with buffer := Function.update h.buffer buf contents }

/-- Make a buffer. -/
def Heap.alloc (h : Heap α) (contents : List α) : Heap α :=
  ⟨Function.update h.buffer h.next contents, h.next + 1⟩

/-- Change in place what a slice shows. -/
def Heap.edit (h : Heap α) (s : Slice) (change : List α → List α) : Heap α :=
  h.store s.buf ((h.buffer s.buf).take s.off ++ change (h.read s) ++
    (h.buffer s.buf).drop (s.off + s.len))

/-- The slice ends within its buffer. -/
def Slice.Inside (s : Slice) (h : Heap α) : Prop :=
  s.off + s.len ≤ (h.buffer s.buf).length

variable {h h' : Heap α} {s : Slice} {buf : Nat} {contents : List α}

theorem Heap.length_read (hinside : s.Inside h) : (h.read s).length = s.len := by
  rw [Heap.read, List.length_take, List.length_drop]
  rw [Slice.Inside] at hinside
  omega

theorem Heap.read_congr (hbuf : h'.buffer s.buf = h.buffer s.buf) : h'.read s = h.read s := by
  rw [Heap.read, Heap.read, hbuf]

theorem Slice.Inside.congr (hinside : s.Inside h) (hbuf : h'.buffer s.buf = h.buffer s.buf) :
    s.Inside h' := by
  rw [Slice.Inside, hbuf]
  exact hinside

theorem Heap.read_within {off len : Nat} (hfit : off + len ≤ s.len) :
    h.read (s.within off len) = ((h.read s).drop off).take len := by
  have hmin : min len (s.len - off) = len := by omega
  rw [Heap.read, Heap.read, Slice.within, List.drop_take, List.take_take, List.drop_drop, hmin]

theorem Slice.Inside.within {off len : Nat} (hinside : s.Inside h) (hfit : off + len ≤ s.len) :
    (s.within off len).Inside h := by
  rw [Slice.Inside] at hinside ⊢
  simp only [Slice.within]
  omega

@[simp] theorem Heap.store_buffer_self : (h.store buf contents).buffer buf = contents :=
  Function.update_self _ _ _

theorem Heap.store_buffer_of_ne {other : Nat} (hne : other ≠ buf) :
    (h.store buf contents).buffer other = h.buffer other :=
  Function.update_of_ne hne _ _

@[simp] theorem Heap.store_next : (h.store buf contents).next = h.next := rfl

@[simp] theorem Heap.alloc_buffer_self : (h.alloc contents).buffer h.next = contents :=
  Function.update_self _ _ _

theorem Heap.alloc_buffer_of_lt {other : Nat} (hlt : other < h.next) :
    (h.alloc contents).buffer other = h.buffer other :=
  Function.update_of_ne (Nat.ne_of_lt hlt) _ _

@[simp] theorem Heap.alloc_next : (h.alloc contents).next = h.next + 1 := rfl

/-- A slice between two stretches of a buffer shows what lies there. -/
theorem Heap.read_between {before mid after : List α}
    (hbuf : h.buffer buf = before ++ mid ++ after) :
    h.read ⟨buf, before.length, mid.length⟩ = mid := by
  rw [Heap.read, hbuf, List.append_assoc, List.drop_left, List.take_left]

/-- An edit between two stretches of a buffer leaves both. -/
theorem Heap.edit_between {before mid after : List α}
    (hbuf : h.buffer buf = before ++ mid ++ after) (change : List α → List α) :
    h.edit ⟨buf, before.length, mid.length⟩ change =
      h.store buf (before ++ change mid ++ after) := by
  rw [Heap.edit, Heap.read_between hbuf, hbuf, ← List.length_append, List.drop_left,
    List.append_assoc before mid, List.take_left]

theorem Heap.read_front {len : Nat} : h.read ⟨buf, 0, len⟩ = (h.buffer buf).take len := by
  rw [Heap.read, List.drop_zero]

end SliceHeap
