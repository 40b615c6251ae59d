import Sponge.Runs

/-!
# A bounded first-in first-out queue

What is put in is accepted as far as there is room; what does not fit is refused.
-/
namespace Sponge

structure BoundedQueue (α : Type*) where
  capacity : ℕ
  items : List α
  length_le : items.length ≤ capacity

namespace BoundedQueue
variable {α : Type*}

def room (q : BoundedQueue α) : ℕ := q.capacity - q.items.length

def put (q : BoundedQueue α) (xs : List α) : BoundedQueue α where
  capacity := q.capacity
  items := q.items ++ xs.take q.room
  length_le := by
    have := q.length_le
    simp only [room, List.length_append, List.length_take]
    omega

def take (q : BoundedQueue α) (n : ℕ) : BoundedQueue α where
  capacity := q.capacity
  items := q.items.drop n
  length_le := by
    have := q.length_le
    rw [List.length_drop]
    omega

inductive Op (α : Type*) where
  | put (xs : List α)
  | take (n : ℕ)

def step (q : BoundedQueue α) : Op α → BoundedQueue α
  | .put xs => q.put xs
  | .take n => q.take n

def machine : Machine (BoundedQueue α) (Op α) := ⟨step, fun _ _ => True⟩

def accepted (q : BoundedQueue α) : Op α → List α
  | .put xs => xs.take q.room
  | .take _ => []

def removed (q : BoundedQueue α) : Op α → List α
  | .put _ => []
  | .take n => q.items.take n

theorem removed_append_items_step (q : BoundedQueue α) (op : Op α) :
    q.removed op ++ (q.step op).items = q.items ++ q.accepted op := by
  cases op with
  | put xs => rfl
  | take n => exact (List.take_append_drop n q.items).trans (List.append_nil _).symm

/-- Nothing is lost, doubled or reordered: what was taken out, followed by what is held, is what
was held at first, followed by what was accepted. -/
theorem removed_append_items (q : BoundedQueue α) (ops : List (Op α)) :
    machine.collect removed q ops ++ (machine.run q ops).items =
      q.items ++ machine.collect accepted q ops := by
  induction ops using List.reverseRecOn with
  | nil => simp
  | append_singleton past op ih =>
    have hstep := removed_append_items_step (machine.run q past) op
    rw [Machine.collect_snoc, Machine.collect_snoc, Machine.run_snoc, ← List.append_assoc, ← ih,
      List.append_assoc, List.append_assoc, ← hstep]
    rfl

theorem capacity_run (q : BoundedQueue α) (ops : List (Op α)) :
    (machine.run q ops).capacity = q.capacity := by
  induction ops using List.reverseRecOn with
  | nil => rfl
  | append_singleton past op ih =>
    rw [Machine.run_snoc, ← ih]
    cases op <;> rfl

end BoundedQueue
end Sponge
