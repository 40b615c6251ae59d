import Mathlib.Algebra.GroupWithZero.Nat
import Mathlib.Data.List.Sort
import Mathlib.Data.Nat.Notation

/-!
# Lists of intervals that tile a stretch of the naturals

Every element has a start and a length. A list tiles `[a, b)` when its elements
are non-empty and follow each other without gap or overlap.
-/
namespace Sponge

variable {α : Type*} {start len : α → ℕ}

def Tiles (start len : α → ℕ) : ℕ → List α → ℕ → Prop
  | a, [], b => a = b
  | a, t :: ts, b => start t = a ∧ 0 < len t ∧ Tiles start len (a + len t) ts b

namespace Tiles

theorem append_iff {xs ys : List α} {a b : ℕ} :
    Tiles start len a (xs ++ ys) b ↔ ∃ m, Tiles start len a xs m ∧ Tiles start len m ys b := by
  induction xs generalizing a with
  | nil => simp [Tiles]
  | cons t ts ih => simp [Tiles, ih, and_assoc]

theorem le {ts : List α} {a b : ℕ} (h : Tiles start len a ts b) : a ≤ b := by
  induction ts generalizing a with
  | nil => exact Nat.le_of_eq h
  | cons t ts ih => exact (Nat.le_add_right _ _).trans (ih h.2.2)

theorem end_eq {ts : List α} {a b : ℕ} (h : Tiles start len a ts b) :
    b = a + (ts.map len).sum := by
  induction ts generalizing a with
  | nil => exact h.symm
  | cons t ts ih =>
    rw [List.map_cons, List.sum_cons, ← Nat.add_assoc]
    exact ih h.2.2

theorem start_eq {ts : List α} {a a' b : ℕ} (h : Tiles start len a ts b)
    (h' : Tiles start len a' ts b) : a = a' := by
  have hend := h.end_eq
  have hend' := h'.end_eq
  omega

theorem eq_nil_iff {ts : List α} {a b : ℕ} (h : Tiles start len a ts b) : ts = [] ↔ a = b := by
  cases ts with
  | nil => exact iff_of_true rfl h
  | cons t ts =>
    refine iff_of_false (List.cons_ne_nil t ts) ?_
    have hle := h.2.2.le
    have hpos := h.2.1
    omega

theorem len_pos {ts : List α} {a b : ℕ} (h : Tiles start len a ts b) {t : α} (ht : t ∈ ts) :
    0 < len t := by
  induction ts generalizing a with
  | nil => cases ht
  | cons u us ih =>
    rcases List.mem_cons.mp ht with rfl | ht
    · exact h.2.1
    · exact ih h.2.2 ht

theorem bounds {ts : List α} {a b : ℕ} (h : Tiles start len a ts b) {t : α} (ht : t ∈ ts) :
    a ≤ start t ∧ start t + len t ≤ b := by
  induction ts generalizing a with
  | nil => cases ht
  | cons u us ih =>
    rcases List.mem_cons.mp ht with rfl | ht
    · exact ⟨Nat.le_of_eq h.1.symm, h.1 ▸ h.2.2.le⟩
    · have := ih h.2.2 ht
      omega

/-- A start at or past the end of the tiled stretch goes to the end of the ordered list. -/
theorem orderedInsert_eq {ts : List α} {a b : ℕ} (h : Tiles start len a ts b) {t : α}
    (ht : b ≤ start t) : ts.orderedInsert (fun x y => start x ≤ start y) t = ts ++ [t] := by
  induction ts generalizing a with
  | nil => rfl
  | cons u us ih =>
    have hu := h.bounds List.mem_cons_self
    have hpos := h.2.1
    rw [List.orderedInsert_cons, if_neg (by omega), ih h.2.2, List.cons_append]

/-- Each number of the stretch lies in exactly one tile. -/
theorem existsUnique {ts : List α} {a b q : ℕ} (h : Tiles start len a ts b) (hlo : a ≤ q)
    (hhi : q < b) : ∃! t, t ∈ ts ∧ start t ≤ q ∧ q < start t + len t := by
  induction ts generalizing a with
  | nil =>
    have hab : a = b := h
    omega
  | cons u us ih =>
    have hstart := h.1
    by_cases hq : q < a + len u
    · refine ⟨u, ⟨List.mem_cons_self, by omega, by omega⟩, ?_⟩
      rintro t ⟨ht, htq, -⟩
      rcases List.mem_cons.mp ht with rfl | ht
      · rfl
      · have := (h.2.2.bounds ht).1
        omega
    · obtain ⟨t, ⟨ht, htq⟩, huniq⟩ := ih h.2.2 (by omega)
      refine ⟨t, ⟨List.mem_cons_of_mem u ht, htq⟩, ?_⟩
      rintro t' ⟨ht', htq'⟩
      rcases List.mem_cons.mp ht' with rfl | ht'
      · omega
      · exact huniq t' ⟨ht', htq'⟩

end Tiles
end Sponge
