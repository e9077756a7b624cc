/-
Reading items off a stream, one after the other.  A reader takes the next item
off what is left of the stream or stops; the loop runs it until it stops.  An
item that is read whole leaves the loop where the item ends, so a stream of such
items is read item by item.
-/
import Mathlib.Data.List.Basic

namespace StreamLoop

variable {S I E : Type}

/-- One item after the other until the reader stops; `fuel` bounds how many. -/
def loop (next : S → Except E (I × S)) : Nat → S → List I × Option E
  | 0, _ => ([], none)
  | fuel + 1, stream =>
      match next stream with
      | .error stop => ([], some stop)
      | .ok (item, rest) => (item :: (loop next fuel rest).1, (loop next fuel rest).2)

variable {next : S → Except E (I × S)}

theorem loop_of_ok {stream rest : S} {item : I} (hnext : next stream = .ok (item, rest))
    (fuel : Nat) :
    loop next (fuel + 1) stream =
      (item :: (loop next fuel rest).1, (loop next fuel rest).2) := by
  rw [loop, hnext]

theorem loop_of_error {stream : S} {stop : E} (hnext : next stream = .error stop) (fuel : Nat) :
    loop next (fuel + 1) stream = ([], some stop) := by
  rw [loop, hnext]

/-- A stream of items that are each read whole is read item by item. -/
theorem loop_items {B : Type} {next : List B → Except E (I × List B)} {bytes : I → List B}
    {items : List I} (hnext : ∀ item ∈ items, ∀ rest, next (bytes item ++ rest) = .ok (item, rest))
    (fuel : Nat) (rest : List B) :
    loop next (items.length + fuel) ((items.map bytes).flatten ++ rest) =
      (items ++ (loop next fuel rest).1, (loop next fuel rest).2) := by
  induction items with
  | nil => rw [List.length_nil, Nat.zero_add, List.map_nil, List.flatten_nil, List.nil_append,
      List.nil_append]
  | cons item others ih =>
      have hhead := hnext item List.mem_cons_self ((others.map bytes).flatten ++ rest)
      have htail := ih fun other hother => hnext other (List.mem_cons_of_mem item hother)
      rw [List.map_cons, List.flatten_cons, List.append_assoc, List.length_cons,
        Nat.add_right_comm, loop_of_ok hhead, htail]
      rfl

end StreamLoop
