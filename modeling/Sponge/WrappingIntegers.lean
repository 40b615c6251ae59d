import Mathlib.Data.Nat.Notation
import Mathlib.Data.Int.Notation
import Mathlib.Tactic.Ring

/-! # 32-bit sequence numbers relative to an initial sequence number -/
namespace Sponge

structure WrappingInt32 where
  rawValue : UInt32
  deriving DecidableEq

def wrap (n : ℕ) (isn : WrappingInt32) : WrappingInt32 :=
  ⟨UInt32.ofNat ((n % 2 ^ 32 + isn.rawValue.toNat % 2 ^ 32) % 2 ^ 32)⟩

namespace WrappingInt32

/-- `a - b` as a signed 32-bit integer. -/
def sub (a b : WrappingInt32) : ℤ := (a.rawValue - b.rawValue).toInt32.toInt

/-- The point `b` steps past `a`; the step is converted to 32 bits. -/
def add (a : WrappingInt32) (b : ℕ) : WrappingInt32 := ⟨a.rawValue + UInt32.ofNat b⟩

end WrappingInt32

/-- The value of a 64-bit word read as a signed integer. -/
def signed64 (n : ℕ) : ℤ := (n : ℤ).bmod (2 ^ 64)

/-- The signed sum that is tested overflows at `2 ^ 63`. C++ leaves that undefined; here it wraps
around, as it does on the machines. -/
def unwrap (n isn : WrappingInt32) (checkpoint : ℕ) : ℕ :=
  let diff := n.sub (wrap checkpoint isn)
  let correction : ℤ := if (signed64 checkpoint + diff).bmod (2 ^ 64) < 0 then 2 ^ 32 else 0
  ((checkpoint + diff + correction) % 2 ^ 64).toNat

theorem unwrap_lt (n isn : WrappingInt32) (checkpoint : ℕ) : unwrap n isn checkpoint < 2 ^ 64 := by
  simp only [unwrap]
  omega

theorem toNat_wrap (n : ℕ) (isn : WrappingInt32) :
    (wrap n isn).rawValue.toNat = (n + isn.rawValue.toNat) % 2 ^ 32 := by
  simp [wrap, Nat.add_mod]

theorem wrap_zero (isn : WrappingInt32) : wrap 0 isn = isn := by
  cases isn
  simp [wrap]

theorem wrap_add (n m : ℕ) (isn : WrappingInt32) : wrap (n + m) isn = (wrap n isn).add m := by
  have h : (wrap (n + m) isn).rawValue = ((wrap n isn).add m).rawValue := by
    apply UInt32.toNat_inj.mp
    rw [WrappingInt32.add, UInt32.toNat_add, toNat_wrap, toNat_wrap, UInt32.toNat_ofNat']
    omega
  exact congrArg WrappingInt32.mk h

theorem wrap_inj_iff (n m : ℕ) (isn : WrappingInt32) :
    wrap n isn = wrap m isn ↔ n % 2 ^ 32 = m % 2 ^ 32 := by
  have hraw : wrap n isn = wrap m isn ↔ (wrap n isn).rawValue = (wrap m isn).rawValue :=
    ⟨congrArg _, congrArg WrappingInt32.mk⟩
  rw [hraw, ← UInt32.toNat_inj, toNat_wrap, toNat_wrap]
  omega

theorem WrappingInt32.sub_eq_bmod (a b : WrappingInt32) :
    a.sub b = ((a.rawValue.toNat : ℤ) - b.rawValue.toNat).bmod (2 ^ 32) := by
  rw [sub, Int32.toInt, UInt32.toBitVec_toInt32, UInt32.toBitVec_sub, BitVec.toInt_sub,
    BitVec.toInt_eq_toNat_bmod, BitVec.toInt_eq_toNat_bmod, Int.bmod_sub_bmod, Int.sub_bmod_bmod]
  rfl

/-- Two wrapped numbers differ by the signed residue of the difference of the numbers. -/
theorem wrap_sub_wrap (v c : ℕ) (isn : WrappingInt32) :
    (wrap v isn).sub (wrap c isn) = ((v : ℤ) - c).bmod (2 ^ 32) := by
  rw [WrappingInt32.sub_eq_bmod, toNat_wrap, toNat_wrap, Int.natCast_emod, Int.natCast_emod,
    Int.emod_sub_bmod, Int.sub_emod_bmod]
  congr 1
  push_cast
  ring

theorem signed64_of_lt {n : ℕ} (h : n < 2 ^ 63) : signed64 n = n :=
  Int.bmod_eq_of_le (by omega) (by omega)

section Unwrap
variable (n isn : WrappingInt32) {checkpoint : ℕ}

theorem WrappingInt32.sub_bounds (a b : WrappingInt32) :
    -2 ^ 31 ≤ a.sub b ∧ a.sub b < 2 ^ 31 := by
  rw [sub_eq_bmod]
  exact ⟨Int.le_bmod (by decide), Int.bmod_lt (by decide)⟩

/-- The numbers that wrap to `n` are whole turns of `2 ^ 32` apart, and one of them lies at the
signed distance from the checkpoint. -/
theorem wrap_eq_iff (checkpoint y : ℕ) :
    wrap y isn = n ↔ ((y : ℤ) - (checkpoint + n.sub (wrap checkpoint isn))) % 2 ^ 32 = 0 := by
  have hn : n.rawValue.toNat < 2 ^ 32 := n.rawValue.toNat_lt
  have hraw : wrap y isn = n ↔ (y + isn.rawValue.toNat) % 2 ^ 32 = n.rawValue.toNat := by
    rw [← toNat_wrap, UInt32.toNat_inj]
    exact ⟨congrArg _, fun h => by cases n; cases h; rfl⟩
  rw [hraw, WrappingInt32.sub_eq_bmod, toNat_wrap]
  simp only [Int.bmod]
  omega

/-- While the sum stays in the signed range, only a number before zero is corrected. -/
theorem unwrap_eq (hc : checkpoint < 2 ^ 63)
    (hsum : checkpoint + n.sub (wrap checkpoint isn) < 2 ^ 63) :
    (unwrap n isn checkpoint : ℤ) =
      checkpoint + n.sub (wrap checkpoint isn) +
        if checkpoint + n.sub (wrap checkpoint isn) < 0 then 2 ^ 32 else 0 := by
  obtain ⟨hlo, -⟩ := n.sub_bounds (wrap checkpoint isn)
  have hsigned : (checkpoint + n.sub (wrap checkpoint isn)).bmod (2 ^ 64) =
      checkpoint + n.sub (wrap checkpoint isn) := Int.bmod_eq_of_le (by omega) (by omega)
  simp only [unwrap, signed64_of_lt hc, hsigned]
  split <;> omega

/-- Past the signed range the correction is made a whole turn too high. -/
theorem unwrap_eq_of_overflow (hc : checkpoint < 2 ^ 63)
    (hsum : 2 ^ 63 ≤ checkpoint + n.sub (wrap checkpoint isn)) :
    (unwrap n isn checkpoint : ℤ) = checkpoint + n.sub (wrap checkpoint isn) + 2 ^ 32 := by
  obtain ⟨-, hhi⟩ := n.sub_bounds (wrap checkpoint isn)
  have hsigned : (checkpoint + n.sub (wrap checkpoint isn)).bmod (2 ^ 64) < 0 := by
    simp only [Int.bmod]
    omega
  simp only [unwrap, signed64_of_lt hc, if_pos hsigned]
  omega

/-- `unwrap` recovers every number that lies within `2 ^ 31` of the checkpoint. -/
theorem unwrap_wrap {v : ℕ} (hc : checkpoint < 2 ^ 63) (hv : v < 2 ^ 63)
    (hlo : checkpoint ≤ v + 2 ^ 31) (hhi : v < checkpoint + 2 ^ 31) :
    unwrap (wrap v isn) isn checkpoint = v := by
  have hdiff : (wrap v isn).sub (wrap checkpoint isn) = (v : ℤ) - checkpoint := by
    rw [wrap_sub_wrap]
    exact Int.bmod_eq_of_le (by omega) (by omega)
  have hunwrap := unwrap_eq (wrap v isn) isn hc (by omega)
  rw [hdiff, if_neg (by omega)] at hunwrap
  omega

/-- The documented result: the 64-bit number that wraps to `n` and is closest to the checkpoint,
the lower one of two, and so every number within `2 ^ 31` of the checkpoint comes back. -/
structure UnwrapsExactly (checkpoint : ℕ) : Prop where
  wraps : wrap (unwrap n isn checkpoint) isn = n
  closest : ∀ y < 2 ^ 64, wrap y isn = n →
    ((unwrap n isn checkpoint : ℤ) - checkpoint).natAbs < ((y : ℤ) - checkpoint).natAbs ∨
      ((unwrap n isn checkpoint : ℤ) - checkpoint).natAbs = ((y : ℤ) - checkpoint).natAbs ∧
        unwrap n isn checkpoint ≤ y
  recovers : ∀ v, wrap v isn = n → checkpoint ≤ v + 2 ^ 31 → v < checkpoint + 2 ^ 31 →
    unwrap n isn checkpoint = v

/-- When the signed sum stays in range, read off the arguments: above `2 ^ 63` the first number
that wraps to `n` lies at `n - isn`. -/
theorem sum_lt_iff (hc : checkpoint < 2 ^ 63) :
    checkpoint + n.sub (wrap checkpoint isn) < 2 ^ 63 ↔
      checkpoint + 2 ^ 31 ≤ 2 ^ 63 + (n.rawValue - isn.rawValue).toNat := by
  have hn : n.rawValue.toNat < 2 ^ 32 := n.rawValue.toNat_lt
  have hisn : isn.rawValue.toNat < 2 ^ 32 := isn.rawValue.toNat_lt
  rw [WrappingInt32.sub_eq_bmod, toNat_wrap, UInt32.toNat_sub]
  simp only [Int.bmod]
  omega

theorem unwrapsExactly_iff (hc : checkpoint < 2 ^ 63) :
    UnwrapsExactly n isn checkpoint ↔
      checkpoint + 2 ^ 31 ≤ 2 ^ 63 + (n.rawValue - isn.rawValue).toNat := by
  rw [← sum_lt_iff n isn hc]
  have hturns := wrap_eq_iff n isn checkpoint
  obtain ⟨hlo, hhi⟩ := n.sub_bounds (wrap checkpoint isn)
  constructor
  · intro hexact
    by_contra hsum
    have hunwrap := unwrap_eq_of_overflow n isn hc (by omega)
    -- The number one turn below wraps to `n` as well and is closer.
    obtain ⟨y, hy⟩ : ∃ y : ℕ, (y : ℤ) = checkpoint + n.sub (wrap checkpoint isn) :=
      ⟨_, Int.toNat_of_nonneg (by omega)⟩
    have hcloser := hexact.closest y (by omega) ((hturns y).mpr (by omega))
    omega
  · intro hsum
    have hunwrap := unwrap_eq n isn hc hsum
    constructor
    · rw [hturns]
      split at hunwrap <;> omega
    · intro y hy hwrap
      have hturn := (hturns y).mp hwrap
      split at hunwrap <;> omega
    · intro v hwrap hvlo hvhi
      have hturn := (hturns v).mp hwrap
      split at hunwrap <;> omega

theorem unwrapsExactly_across_wrap :
    (5 : ℕ) < 2 ^ 63 ∧ UnwrapsExactly ⟨2⟩ ⟨4294967290⟩ 5 :=
  ⟨by decide, (unwrapsExactly_iff ⟨2⟩ ⟨4294967290⟩ (by decide)).mpr (by decide)⟩

theorem unwrap_overflow :
    ¬ UnwrapsExactly ⟨0⟩ ⟨0⟩ (2 ^ 63 - 1) ∧
      unwrap ⟨0⟩ ⟨0⟩ (2 ^ 63 - 1) = 2 ^ 63 + 2 ^ 32 ∧ wrap (2 ^ 63) ⟨0⟩ = ⟨0⟩ := by
  have hunwrap : unwrap ⟨0⟩ ⟨0⟩ (2 ^ 63 - 1) = 2 ^ 63 + 2 ^ 32 := by decide +kernel
  have hwrap : wrap (2 ^ 63) ⟨0⟩ = ⟨0⟩ := by decide +kernel
  refine ⟨fun hexact => ?_, hunwrap, hwrap⟩
  have hcloser := hexact.closest (2 ^ 63) (by decide) hwrap
  rw [hunwrap] at hcloser
  omega

end Unwrap

end Sponge
