import Mathlib.Data.List.Induction
import Mathlib.Data.Nat.Bitwise
import Mathlib.Tactic.Ring

/-! # Big-endian numerals of a fixed number of bytes -/
namespace Sponge.BigEndian

/-- The `len` low bytes of `n`, the highest first. -/
def encode : ℕ → ℕ → List UInt8
  | 0, _ => []
  | len + 1, n => UInt8.ofNat (n / 256 ^ len) :: encode len n

def decode (bytes : List UInt8) : ℕ := bytes.foldl (fun acc byte => acc * 256 + byte.toNat) 0

/-- The numeral of `len` bytes that stands at position `i`. -/
def field (bytes : List UInt8) (i len : ℕ) : ℕ := decode ((bytes.drop i).take len)

@[simp] theorem length_encode (len n : ℕ) : (encode len n).length = len := by
  induction len with
  | zero => rfl
  | succ len ih => simp [encode, ih]

@[simp] theorem decode_nil : decode [] = 0 := rfl

theorem decode_append (xs ys : List UInt8) :
    decode (xs ++ ys) = decode xs * 256 ^ ys.length + decode ys := by
  induction ys using List.reverseRecOn with
  | nil => simp
  | append_singleton ys y ih =>
    simp only [decode, ← List.append_assoc, List.foldl_append, List.foldl_cons, List.foldl_nil,
      List.length_append, List.length_singleton] at ih ⊢
    rw [ih]
    ring

@[simp] theorem decode_singleton (byte : UInt8) : decode [byte] = byte.toNat := by simp [decode]

theorem decode_cons (byte : UInt8) (bytes : List UInt8) :
    decode (byte :: bytes) = byte.toNat * 256 ^ bytes.length + decode bytes := by
  rw [← List.singleton_append, decode_append, decode_singleton]

theorem decode_take_succ {bytes : List UInt8} {i : ℕ} (h : i < bytes.length) :
    decode (bytes.take (i + 1)) = decode (bytes.take i) * 256 + bytes[i].toNat := by
  rw [List.take_add_one, List.getElem?_eq_getElem h, Option.toList_some, decode_append,
    decode_singleton, List.length_singleton, pow_one]

theorem decode_lt (bytes : List UInt8) : decode bytes < 256 ^ bytes.length := by
  induction bytes with
  | nil => simp
  | cons byte bytes ih =>
    have hbyte := byte.toNat_lt
    calc decode (byte :: bytes)
        = byte.toNat * 256 ^ bytes.length + decode bytes := decode_cons byte bytes
      _ < byte.toNat * 256 ^ bytes.length + 256 ^ bytes.length := Nat.add_lt_add_left ih _
      _ = (byte.toNat + 1) * 256 ^ bytes.length := by ring
      _ ≤ 256 * 256 ^ bytes.length := Nat.mul_le_mul_right _ hbyte
      _ = 256 ^ (byte :: bytes).length := by rw [List.length_cons, pow_succ']

theorem decode_encode (len n : ℕ) : decode (encode len n) = n % 256 ^ len := by
  induction len with
  | zero => simp [encode, Nat.mod_one]
  | succ len ih =>
    have hbyte : (UInt8.ofNat (n / 256 ^ len)).toNat = n / 256 ^ len % 256 := UInt8.toNat_ofNat'
    rw [encode, decode_cons, ih, length_encode, hbyte, pow_succ, Nat.mod_mul]
    ring

theorem decode_encode_of_lt {len n : ℕ} (h : n < 256 ^ len) : decode (encode len n) = n := by
  rw [decode_encode, Nat.mod_eq_of_lt h]

theorem encode_add_mul (len n k : ℕ) : encode len (n + k * 256 ^ len) = encode len n := by
  induction len generalizing k with
  | zero => rfl
  | succ len ih =>
    have hdiv : (n + k * 256 ^ (len + 1)) / 256 ^ len = n / 256 ^ len + k * 256 := by
      rw [pow_succ', ← Nat.mul_assoc, Nat.add_mul_div_right _ _ (Nat.pow_pos (by decide))]
    have hbyte : UInt8.ofNat (n / 256 ^ len + k * 256) = UInt8.ofNat (n / 256 ^ len) := by
      apply UInt8.toNat_inj.mp
      simp
    rw [encode, encode, hdiv, hbyte, pow_succ', ← Nat.mul_assoc, ih]

theorem encode_decode (bytes : List UInt8) : encode bytes.length (decode bytes) = bytes := by
  induction bytes with
  | nil => rfl
  | cons byte bytes ih =>
    have hdiv : (byte.toNat * 256 ^ bytes.length + decode bytes) / 256 ^ bytes.length =
        byte.toNat := by
      rw [Nat.add_comm, Nat.add_mul_div_right _ _ (Nat.pow_pos (by decide)),
        Nat.div_eq_of_lt (decode_lt bytes), Nat.zero_add]
    rw [List.length_cons, encode, decode_cons, hdiv, UInt8.ofNat_toNat, Nat.add_comm,
      encode_add_mul, ih]

theorem field_lt (bytes : List UInt8) (i len : ℕ) : field bytes i len < 256 ^ len := by
  refine (decode_lt _).trans_le (Nat.pow_le_pow_right (by decide) ?_)
  exact List.length_take_le _ _

theorem ofNat_and_255 (n : ℕ) : UInt8.ofNat (n &&& 0xff) = UInt8.ofNat n := by
  have hmask : n &&& 0xff = n % 2 ^ 8 := Nat.and_two_pow_sub_one_eq_mod n 8
  apply UInt8.toNat_inj.mp
  simp [hmask]

/-- The loop that shifts one byte after another out of `n`. -/
theorem map_range_shiftRight (len n : ℕ) :
    (List.range len).map (fun i => UInt8.ofNat ((n >>> ((len - i - 1) * 8)) &&& 0xff)) =
      encode len n := by
  induction len with
  | zero => rfl
  | succ len ih =>
    rw [List.range_succ_eq_map, List.map_cons, List.map_map, encode, ← ih]
    congr 1
    · have hpow : 2 ^ (len * 8) = 256 ^ len := by
        rw [Nat.mul_comm]
        exact pow_mul 2 8 len
      rw [ofNat_and_255, Nat.shiftRight_eq_div_pow, Nat.sub_zero, Nat.add_sub_cancel, hpow]
    · refine List.map_congr_left fun i _ => ?_
      simp [Nat.succ_sub_succ]

section Fields
variable {len n i : ℕ} (rest : List UInt8) (k : ℕ)

theorem field_encode (h : n < 256 ^ len) : field (encode len n ++ rest) 0 len = n := by
  rw [field, List.drop_zero, List.take_left' (length_encode len n), decode_encode_of_lt h]

@[simp] theorem field_encode_one (x : UInt8) : field (encode 1 x.toNat ++ rest) 0 1 = x.toNat :=
  field_encode rest x.toNat_lt

@[simp] theorem field_encode_two (x : UInt16) : field (encode 2 x.toNat ++ rest) 0 2 = x.toNat :=
  field_encode rest x.toNat_lt

@[simp] theorem field_encode_four (x : UInt32) : field (encode 4 x.toNat ++ rest) 0 4 = x.toNat :=
  field_encode rest x.toNat_lt

theorem field_append_of_le {xs : List UInt8} (h : xs.length ≤ i) :
    field (xs ++ rest) i k = field rest (i - xs.length) k := by
  rw [field, List.drop_append, List.drop_of_length_le h, List.nil_append, field]

theorem field_encode_of_le (h : len ≤ i) :
    field (encode len n ++ rest) i k = field rest (i - len) k := by
  rw [field_append_of_le rest k (by simpa using h), length_encode]

end Fields

section Slices
variable {bytes : List UInt8} {i : ℕ}

theorem encode_field {len : ℕ} (h : i + len ≤ bytes.length) :
    encode len (field bytes i len) = (bytes.drop i).take len := by
  have hlen : ((bytes.drop i).take len).length = len := by
    rw [List.length_take, List.length_drop]
    omega
  rw [field]
  nth_rewrite 1 [← hlen]
  exact encode_decode _

theorem encode_one_field (h : i + 1 ≤ bytes.length) :
    encode 1 (UInt8.ofNat (field bytes i 1)).toNat = (bytes.drop i).take 1 := by
  rw [UInt8.toNat_ofNat_of_lt' (field_lt bytes i 1), encode_field h]

theorem encode_two_field (h : i + 2 ≤ bytes.length) :
    encode 2 (UInt16.ofNat (field bytes i 2)).toNat = (bytes.drop i).take 2 := by
  rw [UInt16.toNat_ofNat_of_lt' (field_lt bytes i 2), encode_field h]

theorem encode_four_field (h : i + 4 ≤ bytes.length) :
    encode 4 (UInt32.ofNat (field bytes i 4)).toNat = (bytes.drop i).take 4 := by
  rw [UInt32.toNat_ofNat_of_lt' (field_lt bytes i 4), encode_field h]

/-- Neighbouring slices make one slice. -/
theorem slice_append (bytes : List UInt8) (i m n : ℕ) :
    (bytes.drop i).take m ++ (bytes.drop (i + m)).take n = (bytes.drop i).take (m + n) := by
  rw [List.take_add, List.drop_drop]

end Slices

section Bits

theorem and_two_pow_ne_zero (n i : ℕ) : decide (n &&& 2 ^ i ≠ 0) = n.testBit i := by
  rw [Nat.and_two_pow]
  cases n.testBit i <;> simp

/-- Masking a byte with a power of two tests one bit. -/
theorem byte_testBit (n : ℕ) {i : ℕ} (hi : i < 8) :
    decide (UInt8.ofNat n &&& UInt8.ofNat (2 ^ i) ≠ 0) = n.testBit i := by
  have hpow : 2 ^ i < 2 ^ 8 := Nat.pow_lt_pow_right (by decide) hi
  have hbit : (n % 2 ^ 8).testBit i = n.testBit i := by
    rw [Nat.testBit_mod_two_pow, decide_eq_true hi, Bool.true_and]
  rw [← hbit, ← and_two_pow_ne_zero]
  simp only [ne_eq, ← UInt8.toNat_inj, UInt8.toNat_and, UInt8.toNat_ofNat',
    Nat.mod_eq_of_lt hpow, UInt8.toNat_zero]

theorem word_testBit (n : ℕ) {i : ℕ} (hi : i < 16) :
    decide (UInt16.ofNat n &&& UInt16.ofNat (2 ^ i) ≠ 0) = n.testBit i := by
  have hpow : 2 ^ i < 2 ^ 16 := Nat.pow_lt_pow_right (by decide) hi
  have hbit : (n % 2 ^ 16).testBit i = n.testBit i := by
    rw [Nat.testBit_mod_two_pow, decide_eq_true hi, Bool.true_and]
  rw [← hbit, ← and_two_pow_ne_zero]
  simp only [ne_eq, ← UInt16.toNat_inj, UInt16.toNat_and, UInt16.toNat_ofNat',
    Nat.mod_eq_of_lt hpow, UInt16.toNat_zero]

/-- The high half of a byte. -/
theorem byte_shiftRight_four {n : ℕ} (h : n < 256) :
    UInt8.ofNat n >>> 4 = UInt8.ofNat (n / 16) := by
  apply UInt8.toNat_inj.mp
  simp [Nat.shiftRight_eq_div_pow]
  omega

/-- The low half of a byte. -/
theorem byte_and_fifteen (n : ℕ) : UInt8.ofNat n &&& 0x0f = UInt8.ofNat (n % 16) := by
  have hmask : n % 256 &&& 15 = n % 256 % 16 := Nat.and_two_pow_sub_one_eq_mod _ 4
  apply UInt8.toNat_inj.mp
  simp [hmask]
  omega

theorem word_and_thirteen (n : ℕ) : UInt16.ofNat n &&& 0x1fff = UInt16.ofNat (n % 8192) := by
  have hmask : n % 65536 &&& 8191 = n % 65536 % 8192 := Nat.and_two_pow_sub_one_eq_mod _ 13
  apply UInt16.toNat_inj.mp
  simp [hmask]
  omega

end Bits

end Sponge.BigEndian
