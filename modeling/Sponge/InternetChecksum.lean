import Sponge.ByteStream
import Sponge.OnesComplement

/-!
# The Internet checksum

The sum is kept in 32 bits, byte by byte; `value` folds its carries and complements the
result. Two turns of the folding loop are enough for a 32-bit sum.
-/
namespace Sponge
open OnesComplement

structure InternetChecksum where
  sum : UInt32 := 0
  parity : Bool := false
  deriving DecidableEq

namespace InternetChecksum

def addByte (c : InternetChecksum) (byte : Byte) : InternetChecksum :=
  let val := byte.toUInt16
  let val := if !c.parity then val <<< 8 else val
  { sum := c.sum + val.toUInt32, parity := !c.parity }

def add (c : InternetChecksum) (data : List Byte) : InternetChecksum := data.foldl addByte c

/-- The loop of `value`. -/
def foldLoop : ℕ → UInt32 → UInt32
  | 0, ret => ret
  | fuel + 1, ret =>
    if 0xffff < ret then foldLoop fuel ((ret >>> 16) + (ret &&& 0xffff)) else ret

def value (c : InternetChecksum) : UInt16 := (~~~ foldLoop 2 c.sum).toUInt16

theorem toNat_turn (ret : UInt32) :
    ((ret >>> 16) + (ret &&& 0xffff)).toNat = ret.toNat / 65536 + ret.toNat % 65536 := by
  have hret := ret.toNat_lt
  have hmask : ret.toNat &&& 65535 = ret.toNat % 65536 := Nat.and_two_pow_sub_one_eq_mod _ 16
  simp [UInt32.toNat_add, Nat.shiftRight_eq_div_pow, hmask]
  omega

theorem foldLoop_of_le {ret : UInt32} (h : ret.toNat ≤ 65535) (fuel : ℕ) :
    foldLoop fuel ret = ret := by
  have hstop : ¬ 0xffff < ret := by
    rw [UInt32.lt_iff_toNat_lt]
    exact Nat.not_lt.mpr h
  cases fuel with
  | zero => rfl
  | succ fuel => rw [foldLoop, if_neg hstop]

theorem foldCarries_foldLoop (fuel : ℕ) (ret : UInt32) :
    foldCarries (foldLoop fuel ret).toNat = foldCarries ret.toNat := by
  induction fuel generalizing ret with
  | zero => rfl
  | succ fuel ih =>
    rw [foldLoop]
    split
    · rw [ih, toNat_turn, foldCarries_carry]
    · rfl

/-- Any fuel from two on lets the loop end. -/
theorem foldLoop_le {fuel : ℕ} (hfuel : 2 ≤ fuel) (ret : UInt32) :
    (foldLoop fuel ret).toNat ≤ 65535 := by
  obtain ⟨fuel, rfl⟩ := Nat.exists_eq_add_of_le' hfuel
  have hret := ret.toNat_lt
  by_cases hzero : ret.toNat ≤ 65535
  · rwa [foldLoop_of_le hzero]
  have hgo : ∀ r : UInt32, ¬ r.toNat ≤ 65535 → 0xffff < r := by
    intro r hr
    rw [UInt32.lt_iff_toNat_lt]
    exact Nat.not_le.mp hr
  have hone := toNat_turn ret
  rw [foldLoop, if_pos (hgo _ hzero)]
  generalize (ret >>> 16) + (ret &&& 0xffff) = ret at hone ⊢
  by_cases hle : ret.toNat ≤ 65535
  · rwa [foldLoop_of_le hle]
  have htwo := toNat_turn ret
  rw [foldLoop, if_pos (hgo _ hle), foldLoop_of_le]
  · omega
  · omega

theorem toNat_value (c : InternetChecksum) : c.value.toNat = checksum c.sum.toNat := by
  have hends := foldLoop_le (le_refl 2) c.sum
  have hfold := foldCarries_foldLoop 2 c.sum
  rw [foldCarries_of_le hends] at hfold
  rw [checksum, ← hfold, value]
  generalize foldLoop 2 c.sum = ret at hends
  simp
  omega

theorem add_append (c : InternetChecksum) (xs ys : List Byte) :
    c.add (xs ++ ys) = (c.add xs).add ys := List.foldl_append

theorem toNat_addByte (c : InternetChecksum) (byte : Byte) :
    (c.addByte byte).sum.toNat = (c.sum.toNat + wordSum c.parity [byte]) % 2 ^ 32 := by
  have hbyte := byte.toNat_lt
  cases hparity : c.parity with
  | false =>
    have hval : byte.toNat <<< 8 % 65536 = 256 * byte.toNat := by
      rw [Nat.shiftLeft_eq]
      omega
    simp [addByte, hparity, wordSum, hval]
  | true => simp [addByte, hparity, wordSum]

theorem toNat_add_sum (c : InternetChecksum) (data : List Byte) :
    (c.add data).sum.toNat = (c.sum.toNat + wordSum c.parity data) % 2 ^ 32 := by
  induction data generalizing c with
  | nil => simp [add, wordSum, Nat.mod_eq_of_lt c.sum.toNat_lt]
  | cons byte data ih =>
    have hfirst := c.toNat_addByte byte
    have hrest := ih (c.addByte byte)
    have hsplit : wordSum c.parity (byte :: data) =
        wordSum c.parity [byte] + wordSum (c.addByte byte).parity data := by
      cases hparity : c.parity <;> simp [wordSum, addByte, hparity]
    change ((c.addByte byte).add data).sum.toNat = _
    rw [hrest, hfirst, hsplit, Nat.mod_add_mod, Nat.add_assoc]

/-- Up to 65535 bytes the 32 bits hold the sum. -/
theorem sum_fits {start : UInt32} {data : List Byte} (hstart : start.toNat < 2 ^ 31)
    (hdata : data.length ≤ 65535) : start.toNat + wordSum false data < 2 ^ 32 := by
  have hsum := wordSum_le false data
  simp only [Bool.false_eq_true, if_false] at hsum
  omega

theorem toNat_add_of_le {start : UInt32} {data : List Byte} (hstart : start.toNat < 2 ^ 31)
    (hdata : data.length ≤ 65535) :
    (add { sum := start } data).sum.toNat = start.toNat + wordSum false data := by
  rw [toNat_add_sum, Nat.mod_eq_of_lt (sum_fits hstart hdata)]

theorem toNat_value_add (start : UInt32) (data : List Byte) (hstart : start.toNat < 2 ^ 31)
    (hdata : data.length ≤ 65535) :
    (add { sum := start } data).value.toNat = checksum (start.toNat + wordSum false data) := by
  rw [toNat_value, toNat_add_of_le hstart hdata]

theorem value_add_eq_zero_iff (start : UInt32) (data : List Byte) (hstart : start.toNat < 2 ^ 31)
    (hdata : data.length ≤ 65535) :
    (add { sum := start } data).value = 0 ↔ checksum (start.toNat + wordSum false data) = 0 := by
  rw [← UInt16.toNat_inj, toNat_value_add start data hstart hdata]
  rfl

section Pieces

/-- The pieces may be added one after another or as one string. -/
theorem foldl_add (c : InternetChecksum) (pieces : List (List Byte)) :
    pieces.foldl add c = c.add pieces.flatten := by
  induction pieces generalizing c with
  | nil => rfl
  | cons piece pieces ih => rw [List.foldl_cons, ih, List.flatten_cons, add_append]

theorem parity_add (c : InternetChecksum) (data : List Byte) :
    (c.add data).parity = (c.parity ^^ data.length.bodd) := by
  induction data generalizing c with
  | nil => simp [add]
  | cons byte data ih =>
    change ((c.addByte byte).add data).parity = _
    rw [ih]
    simp [addByte]

theorem foldLoop_eq_of_two_le {fuel : ℕ} (hfuel : 2 ≤ fuel) (ret : UInt32) :
    foldLoop fuel ret = foldLoop 2 ret := by
  have hfold := (foldCarries_foldLoop fuel ret).trans (foldCarries_foldLoop 2 ret).symm
  rw [foldCarries_of_le (foldLoop_le hfuel ret),
    foldCarries_of_le (foldLoop_le le_rfl ret)] at hfold
  exact UInt32.toNat_inj.mp hfold

/-- A byte inside one of the pieces is added without a carry out of 32 bits. -/
theorem addByte_fits {start : UInt32} {before after : List (List Byte)} {front back : List Byte}
    {byte : Byte} (hstart : start.toNat < 2 ^ 31)
    (hlen : (before ++ (front ++ byte :: back) :: after).flatten.length ≤ 65535) :
    let c := (before.foldl add { sum := start }).add front
    c.sum.toNat + wordSum c.parity [byte] < 2 ^ 32 := by
  simp only [List.flatten_append, List.flatten_cons, List.length_append, List.length_cons] at hlen
  have hfront : (before.flatten ++ front).length ≤ 65535 := by
    rw [List.length_append]
    omega
  have hnext : ((before.flatten ++ front) ++ [byte]).length ≤ 65535 := by
    simp only [List.length_append, List.length_singleton]
    omega
  have hfits := sum_fits hstart hnext
  rw [wordSum_append, ← Nat.add_assoc] at hfits
  dsimp only
  rw [foldl_add, ← add_append, toNat_add_of_le hstart hfront, parity_add]
  exact hfits

/-- The checksum of a sequence of pieces, of whatever lengths, is that of the words of their
concatenation, and the initial sum counts as its two halves. -/
theorem value_foldl_add (start : UInt32) (pieces : List (List Byte)) (hstart : start.toNat < 2 ^ 31)
    (hlen : pieces.flatten.length ≤ 65535) :
    (∀ before front byte back after, pieces = before ++ (front ++ byte :: back) :: after →
      let c := (before.foldl add { sum := start }).add front
      c.sum.toNat + wordSum c.parity [byte] < 2 ^ 32) ∧
    let c := pieces.foldl add { sum := start }
    (∀ fuel ≥ 2, foldLoop fuel c.sum = foldLoop 2 c.sum ∧ ¬ 0xffff < foldLoop fuel c.sum) ∧
    c.value.toNat = 65535 - endAroundSum
      (start.toNat / 65536 :: start.toNat % 65536 :: words (padded pieces.flatten)) := by
  refine ⟨?_, ?_, ?_⟩
  · intro before front byte back after hpieces
    subst hpieces
    exact addByte_fits hstart hlen
  · intro fuel hfuel
    refine ⟨foldLoop_eq_of_two_le hfuel _, ?_⟩
    rw [UInt32.lt_iff_toNat_lt]
    exact Nat.not_lt.mpr (foldLoop_le hfuel _)
  · have hwords : ∀ word ∈ start.toNat / 65536 :: start.toNat % 65536 ::
        words (padded pieces.flatten), word ≤ 65535 := by
      have hhigh := start.toNat_lt
      refine List.forall_mem_cons.mpr ⟨by omega, List.forall_mem_cons.mpr ⟨by omega, ?_⟩⟩
      exact words_le _
    rw [foldl_add, toNat_value_add start _ hstart hlen, checksum, endAroundSum_eq hwords]
    simp only [List.sum_cons, sum_words_padded]
    -- the two halves of the initial sum fold to the same word as the sum itself
    rw [← Nat.add_assoc, ← foldCarries_add_left (_ + _), foldCarries_carry, foldCarries_add_left]

theorem value_foldl_add_odd_pieces :
    (List.foldl add { sum := 0x10006 } [[0x12], [], [0x34, 0xff]]).value.toNat =
      65535 - endAroundSum (0x10006 / 65536 :: 0x10006 % 65536 ::
        words (padded [0x12, 0x34, 0xff])) :=
  (value_foldl_add 0x10006 [[0x12], [], [0x34, 0xff]] (by decide) (by decide)).2.2

end Pieces

end InternetChecksum
end Sponge
