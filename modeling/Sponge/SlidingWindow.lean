import Mathlib.Data.List.Basic
import Mathlib.Data.List.TakeDrop
import Mathlib.Data.Nat.Notation
import Mathlib.Data.Set.Card

/-!
# Fixed-length windows that slide over a stream

A window is a list of constant length. Sliding it by `n` drops its first `n`
cells and fills up at the end. A window of flags is slid by its leading run of
set flags, so that afterwards its first flag, if any, is clear.
-/
namespace Sponge.SlidingWindow

variable {α : Type*}

def slide (n : ℕ) (fill : α) (l : List α) : List α := l.drop n ++ List.replicate n fill

/-- The number of set flags before the first clear one. -/
def leadingRun (flags : List Bool) : ℕ := (flags.takeWhile id).length

theorem length_slide {n : ℕ} (fill : α) {l : List α} (h : n ≤ l.length) :
    (slide n fill l).length = l.length := by
  simp only [slide, List.length_append, List.length_drop, List.length_replicate]
  omega

theorem slide_getElem? {n : ℕ} (fill : α) {l : List α} (h : n ≤ l.length) (p : ℕ) :
    (slide n fill l)[p]? =
      if n + p < l.length then l[n + p]? else if p < l.length then some fill else none := by
  rw [slide]
  by_cases hp : n + p < l.length
  · rw [if_pos hp, List.getElem?_append_left (by simp; omega), List.getElem?_drop]
  · rw [if_neg hp, List.getElem?_append_right (by simp; omega), List.getElem?_replicate]
    simp only [List.length_drop]
    by_cases hq : p < l.length
    · rw [if_pos hq, if_pos (by omega)]
    · rw [if_neg hq, if_neg (by omega)]

theorem getElem?_of_lt_leadingRun {flags : List Bool} {p : ℕ} (h : p < leadingRun flags) :
    flags[p]? = some true := by
  induction flags generalizing p with
  | nil => simp [leadingRun] at h
  | cons b flags ih =>
    cases b with
    | false => simp [leadingRun] at h
    | true =>
      cases p with
      | zero => rfl
      | succ p =>
        rw [List.getElem?_cons_succ]
        exact ih (by simpa [leadingRun] using h)

theorem getElem?_leadingRun_ne (flags : List Bool) :
    flags[leadingRun flags]? ≠ some true := by
  induction flags with
  | nil => simp
  | cons b flags ih =>
    cases b with
    | false => simp [leadingRun]
    | true => simpa [leadingRun] using ih

/-- Sliding by the leading run removes exactly the flags of that run. -/
theorem count_slide_leadingRun (flags : List Bool) :
    (slide (leadingRun flags) false flags).count true + leadingRun flags = flags.count true := by
  have hrun : ∀ l : List Bool, (l.drop (leadingRun l)).count true + leadingRun l = l.count true := by
    intro l
    induction l with
    | nil => rfl
    | cons b l ih =>
      cases b with
      | false => simp [leadingRun]
      | true =>
        have hcons : leadingRun (true :: l) = leadingRun l + 1 := by simp [leadingRun]
        rw [hcons, List.drop_succ_cons, List.count_cons_self]
        omega
  rw [slide, List.count_append, List.count_replicate]
  simpa using hrun flags

/-- The positions of the set flags. -/
def setPositions (flags : List Bool) : Set ℕ := {p | flags[p]? = some true}

theorem finite_setPositions (flags : List Bool) : (setPositions flags).Finite := by
  apply (Set.finite_lt_nat flags.length).subset
  intro p hp
  exact (List.getElem?_eq_some_iff.mp hp).1

theorem ncard_setPositions (flags : List Bool) : (setPositions flags).ncard = flags.count true := by
  induction flags using List.reverseRecOn with
  | nil => simp [setPositions]
  | append_singleton flags b ih =>
    have hnot : flags.length ∉ setPositions flags := by simp [setPositions]
    cases b with
    | false =>
      have hset : setPositions (flags ++ [false]) = setPositions flags := by
        ext p
        simp only [setPositions, Set.mem_ofPred_eq, List.getElem?_append]
        split
        · rfl
        · next hp => simp [List.getElem?_eq_none (Nat.le_of_not_lt hp), List.getElem?_singleton]
      rw [hset, ih]
      simp
    | true =>
      have hset : setPositions (flags ++ [true]) = insert flags.length (setPositions flags) := by
        ext p
        simp only [setPositions, Set.mem_ofPred_eq, Set.mem_insert_iff, List.getElem?_append]
        split
        · next hp => simp [Nat.ne_of_lt hp]
        · next hp =>
          simp only [List.getElem?_eq_none (Nat.le_of_not_lt hp), List.getElem?_singleton]
          simp
          omega
      rw [hset, Set.ncard_insert_of_notMem hnot (finite_setPositions flags), ih]
      simp

end Sponge.SlidingWindow
