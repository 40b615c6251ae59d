import Mathlib.Data.Nat.Bits
import Sponge.BigEndian

/-!
# One's complement sums of 16-bit words

Bytes are summed as big-endian 16-bit words; the sum is a plain natural number, and
`foldCarries` is the 16-bit word that is left once every carry out of 16 bits has been
added back in. The same word comes out of adding 16-bit words with end-around carry.
-/
namespace Sponge.OnesComplement
open BigEndian

def foldCarries (n : ℕ) : ℕ := if n = 0 then 0 else (n - 1) % 65535 + 1

/-- The Internet checksum of a sum: the complement of the folded word. -/
def checksum (n : ℕ) : ℕ := 65535 - foldCarries n

/-- The sum of the words of a byte string; `odd` says that the first byte is the low one of its
word. A last byte without a partner is a high byte. -/
def wordSum : Bool → List UInt8 → ℕ
  | _, [] => 0
  | false, byte :: bytes => 256 * byte.toNat + wordSum true bytes
  | true, byte :: bytes => byte.toNat + wordSum false bytes

theorem foldCarries_of_le {n : ℕ} (h : n ≤ 65535) : foldCarries n = n := by
  rw [foldCarries]
  split <;> omega

/-- Adding the carry back in does not change the folded word. -/
theorem foldCarries_carry (n : ℕ) : foldCarries (n / 65536 + n % 65536) = foldCarries n := by
  simp only [foldCarries]
  split <;> split <;> omega

theorem checksum_eq_zero_iff (n : ℕ) : checksum n = 0 ↔ 0 < n ∧ n % 65535 = 0 := by
  rw [checksum, foldCarries]
  split <;> omega

/-- A sum that contains its own checksum has checksum zero. -/
theorem checksum_add_checksum (n : ℕ) : checksum (n + checksum n) = 0 := by
  rw [checksum_eq_zero_iff, checksum, foldCarries]
  split <;> omega

theorem wordSum_append (odd : Bool) (xs ys : List UInt8) :
    wordSum odd (xs ++ ys) = wordSum odd xs + wordSum (odd ^^ xs.length.bodd) ys := by
  induction xs generalizing odd with
  | nil => simp [wordSum]
  | cons x xs ih =>
    cases odd <;> simp [wordSum, ih, Nat.add_assoc]

theorem wordSum_append_of_even {xs : List UInt8} (h : 2 ∣ xs.length) (odd : Bool)
    (ys : List UInt8) : wordSum odd (xs ++ ys) = wordSum odd xs + wordSum odd ys := by
  obtain ⟨k, hk⟩ := h
  simp [wordSum_append, hk]

theorem wordSum_encode_two {n : ℕ} (h : n < 2 ^ 16) : wordSum false (encode 2 n) = n := by
  simp only [encode, wordSum, UInt8.toNat_ofNat', pow_one, pow_zero]
  omega

/-- A word at an even place adds its own value to the sum. -/
theorem wordSum_word {front : List UInt8} (hfront : 2 ∣ front.length) (back : List UInt8) {n : ℕ}
    (hn : n < 2 ^ 16) :
    wordSum false (front ++ (encode 2 n ++ back)) =
      wordSum false (front ++ (encode 2 0 ++ back)) + n := by
  have hsplit {k : ℕ} (hk : k < 2 ^ 16) : wordSum false (front ++ (encode 2 k ++ back)) =
      wordSum false front + (k + wordSum false back) := by
    have hword : 2 ∣ (encode 2 k).length := ⟨1, length_encode 2 k⟩
    rw [wordSum_append_of_even hfront, wordSum_append_of_even hword, wordSum_encode_two hk]
  rw [hsplit hn, hsplit (Nat.two_pow_pos 16)]
  omega

theorem wordSum_le (odd : Bool) (bytes : List UInt8) :
    2 * wordSum odd bytes ≤ 65535 * bytes.length + (if odd then 510 else 65535) := by
  induction bytes generalizing odd with
  | nil => simp [wordSum]
  | cons byte bytes ih =>
    have hbyte : byte.toNat < 256 := byte.toNat_lt
    cases odd with
    | false =>
      have hrest := ih true
      simp only [wordSum, List.length_cons, if_true, Bool.false_eq_true, if_false] at hrest ⊢
      omega
    | true =>
      have hrest := ih false
      simp only [wordSum, List.length_cons, if_true, Bool.false_eq_true, if_false] at hrest ⊢
      omega

section Pieces

/-- One's complement addition of 16-bit words: the carry goes back in at the low end. -/
def endAroundAdd (x y : ℕ) : ℕ := if x + y < 65536 then x + y else x + y - 65535

def endAroundSum (words : List ℕ) : ℕ := words.foldl endAroundAdd 0

/-- The bytes with a zero byte behind them if their number is odd. -/
def padded (bytes : List UInt8) : List UInt8 :=
  if bytes.length.bodd then bytes ++ [0] else bytes

/-- The big-endian words of a string of full words. -/
def words : List UInt8 → List ℕ
  | high :: low :: bytes => decode [high, low] :: words bytes
  | _ => []

theorem foldCarries_add_left (m n : ℕ) : foldCarries (foldCarries m + n) = foldCarries (m + n) := by
  simp only [foldCarries]
  split <;> split <;> split <;> omega

theorem endAroundAdd_eq {x y : ℕ} (hx : x ≤ 65535) (hy : y ≤ 65535) :
    endAroundAdd x y = foldCarries (x + y) := by
  rw [endAroundAdd, foldCarries]
  split <;> split <;> omega

theorem foldCarries_le (n : ℕ) : foldCarries n ≤ 65535 := by
  rw [foldCarries]
  split <;> omega

/-- Adding word by word gives the folded word of the plain sum. -/
theorem foldl_endAroundAdd {words : List ℕ} (hwords : ∀ word ∈ words, word ≤ 65535) (n : ℕ) :
    words.foldl endAroundAdd (foldCarries n) = foldCarries (n + words.sum) := by
  induction words generalizing n with
  | nil => simp
  | cons word words ih =>
    obtain ⟨hword, hrest⟩ := List.forall_mem_cons.mp hwords
    rw [List.foldl_cons, endAroundAdd_eq (foldCarries_le n) hword, foldCarries_add_left, ih hrest,
      List.sum_cons, Nat.add_assoc]

theorem endAroundSum_eq {words : List ℕ} (hwords : ∀ word ∈ words, word ≤ 65535) :
    endAroundSum words = foldCarries words.sum := by
  rw [endAroundSum]
  simpa [foldCarries] using foldl_endAroundAdd hwords 0

theorem words_le (bytes : List UInt8) : ∀ word ∈ words bytes, word ≤ 65535 := by
  fun_induction words bytes with
  | case1 high low bytes ih =>
    have hword := decode_lt [high, low]
    refine List.forall_mem_cons.mpr ⟨?_, ih⟩
    simp only [List.length_cons, List.length_nil] at hword
    omega
  | case2 bytes h => simp

theorem sum_words_padded (bytes : List UInt8) :
    (words (padded bytes)).sum = wordSum false bytes := by
  induction bytes using words.induct with
  | case1 high low bytes ih =>
    have hpad : padded (high :: low :: bytes) = high :: low :: padded bytes := by
      simp only [padded, List.length_cons, Nat.bodd_succ, Bool.not_not]
      split <;> rfl
    rw [hpad, words, List.sum_cons, ih]
    simp [decode_cons, wordSum]
    omega
  | case2 bytes h =>
    cases bytes with
    | nil => rfl
    | cons byte bytes =>
      cases bytes with
      | nil =>
        simp [padded, words, wordSum, decode_cons]
        omega
      | cons low bytes => exact absurd rfl (h byte low bytes)

end Pieces

section Corruption
variable {bytes : List UInt8} {p : ℕ} {old new : UInt8}

/-- A byte stands in the sum with the weight of its half of the word. -/
theorem wordSum_set (odd : Bool) (new : UInt8) (h : bytes[p]? = some old) :
    wordSum odd (bytes.set p new) + (if odd ^^ p.bodd then 1 else 256) * old.toNat =
      wordSum odd bytes + (if odd ^^ p.bodd then 1 else 256) * new.toNat := by
  induction bytes generalizing odd p with
  | nil => simp at h
  | cons byte bytes ih =>
    cases p with
    | zero =>
      simp only [List.getElem?_cons_zero, Option.some.injEq] at h
      subst h
      cases odd <;> simp [wordSum] <;> omega
    | succ p =>
      have hrest := ih (!odd) (List.getElem?_cons_succ ▸ h)
      cases odd <;> simp [wordSum, Nat.bodd_succ] at hrest ⊢ <;> omega

/-- A changed byte is seen: the difference is less than 65535. -/
theorem checksum_set_ne_zero (n : ℕ) {odd : Bool} (h : bytes[p]? = some old) (hne : new ≠ old)
    (hzero : checksum (n + wordSum odd bytes) = 0) :
    checksum (n + wordSum odd (bytes.set p new)) ≠ 0 := by
  have hset := wordSum_set odd new h
  have hold := old.toNat_lt
  have hnew := new.toNat_lt
  have hbytes : new.toNat ≠ old.toNat := fun heq => hne (UInt8.toNat_inj.mp heq)
  rw [checksum_eq_zero_iff] at hzero
  rw [Ne, checksum_eq_zero_iff]
  rintro ⟨-, hmod⟩
  split at hset <;> omega

end Corruption
end Sponge.OnesComplement
