import Mathlib.Data.List.Basic
import Mathlib.Data.List.TakeDrop
import Mathlib.Data.List.Infix
import Mathlib.Data.Nat.Notation

/-! # Contiguous pieces of a list at a known position -/
namespace Sponge

variable {α : Type*}

/-- `data` stands in `S` at index `i`. An empty piece may stand at the very end. -/
structure IsSlice (S : List α) (i : ℕ) (data : List α) : Prop where
  start_le : i ≤ S.length
  isPrefix : data <+: S.drop i

instance [DecidableEq α] (S : List α) (i : ℕ) (data : List α) : Decidable (IsSlice S i data) :=
  decidable_of_iff (i ≤ S.length ∧ data <+: S.drop i) ⟨fun h => ⟨h.1, h.2⟩, fun h => ⟨h.1, h.2⟩⟩

namespace IsSlice
variable {S data : List α} {i : ℕ}

theorem end_le (h : IsSlice S i data) : i + data.length ≤ S.length := by
  have hlen := h.isPrefix.length_le
  have hstart := h.start_le
  simp only [List.length_drop] at hlen
  omega

theorem getElem? (h : IsSlice S i data) {k : ℕ} (hk : k < data.length) :
    data[k]? = S[i + k]? := by
  obtain ⟨rest, hrest⟩ := h.isPrefix
  rw [← List.getElem?_drop, ← hrest, List.getElem?_append_left hk]

theorem append_right (h : IsSlice S i data) (more : List α) : IsSlice (S ++ more) i data := by
  refine ⟨by have := h.start_le; simp; omega, ?_⟩
  rw [List.drop_append_of_le_length h.start_le]
  exact h.isPrefix.trans (List.prefix_append _ _)

theorem nil (h : i ≤ S.length) : IsSlice S i [] := ⟨h, List.nil_prefix⟩

/-- What follows an initial part of a list is a slice at that part's length. -/
theorem of_append_isPrefix {pre : List α} (h : pre ++ data <+: S) : IsSlice S pre.length data := by
  obtain ⟨post, rfl⟩ := h
  refine ⟨by simp, ?_⟩
  rw [List.append_assoc, List.drop_left]
  exact List.prefix_append _ _

end IsSlice

theorem isSlice_replicate (a : α) {i n : ℕ} (len : ℕ) (h : i + len ≤ n) :
    IsSlice (List.replicate n a) i (List.replicate len a) := by
  refine ⟨by rw [List.length_replicate]; omega, List.replicate (n - i - len) a, ?_⟩
  rw [List.replicate_append_replicate, List.drop_replicate]
  congr 1
  omega

/-- An initial part followed by the slice standing right behind it is an initial part. -/
theorem append_isPrefix_of_isSlice {S pre data : List α} (hpre : pre <+: S)
    (hdata : IsSlice S pre.length data) : pre ++ data <+: S := by
  obtain ⟨post, rfl⟩ := hpre
  have hd := hdata.isPrefix
  rw [List.drop_left] at hd
  exact (List.prefix_append_right_inj pre).mpr hd

end Sponge
