import Sponge.Runs

/-!
# A queue behind a gate

What is put in while the gate is open passes at once. What is put in while it is shut is held,
and passes, in order, when the gate opens.
-/
namespace Sponge

structure GatedQueue (α : Type*) where
  passed : List α
  held : List α
  isOpen : Bool

namespace GatedQueue
variable {α : Type*}

inductive Op (α : Type*) where
  | put (a : α)
  | lift
  | shut

def start : GatedQueue α := ⟨[], [], false⟩

def step (q : GatedQueue α) : Op α → GatedQueue α
  | .put a => if q.isOpen then { q with passed := q.passed ++ [a] }
    else { q with held := q.held ++ [a] }
  | .lift => ⟨q.passed ++ q.held, [], true⟩
  | .shut => { q with isOpen := false }

def machine : Machine (GatedQueue α) (Op α) := ⟨step, fun _ _ => True⟩

/-- What an operation puts in. -/
def putBy : Op α → List α
  | .put a => [a]
  | .lift => []
  | .shut => []

theorem run_put (q : GatedQueue α) (as : List α) :
    machine.run q (as.map .put) = if q.isOpen then { q with passed := q.passed ++ as }
      else { q with held := q.held ++ as } := by
  induction as generalizing q with
  | nil => simp
  | cons a as ih =>
    rw [List.map_cons, Machine.run_cons, ih]
    change (if (step q (.put a)).isOpen then _ else _) = _
    by_cases hopen : q.isOpen = true <;> simp [machine, step, hopen]

section Run
variable {q : GatedQueue α} (hq : q.isOpen = true → q.held = [])
include hq

theorem held_eq_nil_of_isOpen (ops : List (Op α)) (h : (machine.run q ops).isOpen = true) :
    (machine.run q ops).held = [] := by
  induction ops using List.reverseRecOn with
  | nil => exact hq h
  | append_singleton past op ih =>
    rw [Machine.run_snoc] at h ⊢
    generalize machine.run q past = q' at h ih ⊢
    cases op with
    | put a =>
      change (step q' (.put a)).isOpen = true at h
      change (step q' (.put a)).held = []
      by_cases hopen : q'.isOpen = true
      · simpa [step, hopen] using ih hopen
      · simp [step, hopen] at h
    | lift => rfl
    | shut => cases h

/-- Nothing is lost, doubled or reordered: what passed, followed by what is held, grows by what is
put in. -/
theorem passed_append_held (ops : List (Op α)) :
    (machine.run q ops).passed ++ (machine.run q ops).held =
      q.passed ++ q.held ++ ops.flatMap putBy := by
  induction ops using List.reverseRecOn with
  | nil => simp
  | append_singleton past op ih =>
    have hopen := held_eq_nil_of_isOpen hq past
    rw [Machine.run_snoc, List.flatMap_append, ← List.append_assoc, ← ih]
    generalize machine.run q past = q' at hopen ⊢
    change (step q' op).passed ++ (step q' op).held = _
    cases op with
    | put a =>
      by_cases h : q'.isOpen = true
      · simp [step, h, hopen h, putBy]
      · simp [step, h, putBy]
    | lift => simp [step, putBy]
    | shut => simp [step, putBy]

end Run
end GatedQueue
end Sponge
