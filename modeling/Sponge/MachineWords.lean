import Mathlib.Data.Nat.Notation
import Mathlib.Tactic.Ring

/-! # Unsigned machine arithmetic on naturals, with an explicit word width -/
namespace Sponge.MachineWords

/-- Unsigned `a + b` on words of `w` bits. -/
def addMod (w a b : ℕ) : ℕ := (a + b) % 2 ^ w

/-- Unsigned `a - b` on words of `w` bits; it wraps when `b` exceeds `a`. -/
def subMod (w a b : ℕ) : ℕ := (a + (2 ^ w - b % 2 ^ w)) % 2 ^ w

theorem addMod_of_lt {w a b : ℕ} (h : a + b < 2 ^ w) : addMod w a b = a + b :=
  Nat.mod_eq_of_lt h

@[simp] theorem addMod_zero_right {w a : ℕ} (h : a < 2 ^ w) : addMod w a 0 = a := addMod_of_lt h

theorem addMod_lt (w a b : ℕ) : addMod w a b < 2 ^ w := Nat.mod_lt _ (Nat.two_pow_pos w)

theorem addMod_addMod (w a b c : ℕ) : addMod w (addMod w a b) c = addMod w a (b + c) := by
  rw [addMod, addMod, addMod, Nat.mod_add_mod, Nat.add_assoc]

@[simp] theorem subMod_zero_right {w a : ℕ} (h : a < 2 ^ w) : subMod w a 0 = a := by
  simp [subMod, Nat.mod_eq_of_lt h]

theorem subMod_of_le {w a b : ℕ} (hba : b ≤ a) (ha : a < 2 ^ w) : subMod w a b = a - b := by
  have hb : b % 2 ^ w = b := Nat.mod_eq_of_lt (hba.trans_lt ha)
  have he : a + (2 ^ w - b) = (a - b) + 2 ^ w := by omega
  rw [subMod, hb, he, Nat.add_mod_right, Nat.mod_eq_of_lt (by omega)]

theorem subMod_le {w a b : ℕ} (hba : b ≤ a) (hb : b < 2 ^ w) : subMod w a b ≤ a - b := by
  have he : a + (2 ^ w - b) = (a - b) + 2 ^ w := by omega
  rw [subMod, Nat.mod_eq_of_lt hb, he, Nat.add_mod_right]
  exact Nat.mod_le _ _

theorem subMod_subMod (w a b c : ℕ) : subMod w (subMod w a b) c = subMod w a (b + c) := by
  have hb := Nat.mod_lt b (Nat.two_pow_pos w)
  have hc := Nat.mod_lt c (Nat.two_pow_pos w)
  rw [subMod, subMod, subMod, Nat.mod_add_mod, Nat.add_mod b c]
  generalize b % 2 ^ w = x at hb ⊢
  generalize c % 2 ^ w = y at hc ⊢
  by_cases hcarry : x + y < 2 ^ w
  · have he : a + (2 ^ w - x) + (2 ^ w - y) = a + (2 ^ w - (x + y)) + 2 ^ w := by omega
    rw [Nat.mod_eq_of_lt hcarry, he, Nat.add_mod_right]
  · have hmod : (x + y) % 2 ^ w = x + y - 2 ^ w := by
      rw [Nat.mod_eq_sub_mod (by omega), Nat.mod_eq_of_lt (by omega)]
    have he : a + (2 ^ w - x) + (2 ^ w - y) = a + (2 ^ w - (x + y - 2 ^ w)) := by omega
    rw [hmod, he]

end Sponge.MachineWords
