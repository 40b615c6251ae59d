import Sponge.MachineWords
import Mathlib.Data.List.Basic
import Mathlib.Data.List.TakeDrop

/-!
# The in-order byte stream

A stream keeps its bytes in a string of fixed length `capacity`; the first
`endOfBuffer` of them are the ones written and not yet popped. The three
counters are 32-bit unsigned integers, the capacity is a 64-bit one. Popping
moves the remaining bytes to the front with a loop.
-/
namespace Sponge
open MachineWords

abbrev Byte := UInt8

/-- `std::string::max_size`; a longer string cannot be constructed. -/
def stringMaxSize : ℕ := 2 ^ 63 - 1

def space : Byte := 32

structure ByteStream where
  capacity : ℕ
  buffer : List Byte
  endOfBuffer : ℕ
  bytesRead : ℕ
  bytesWritten : ℕ
  isInputEnded : Bool
  error : Bool
  deriving DecidableEq

namespace ByteStream

/-- The constructor throws `length_error`, here `none`, above `stringMaxSize`. -/
def new (capacity : ℕ) : Option ByteStream :=
  if capacity ≤ stringMaxSize then
    some ⟨capacity, List.replicate capacity space, 0, 0, 0, false, false⟩
  else none

def remainingCapacity (b : ByteStream) : ℕ := subMod 64 b.capacity b.endOfBuffer

def bufferSize (b : ByteStream) : ℕ := b.endOfBuffer

def bufferEmpty (b : ByteStream) : Bool := b.endOfBuffer == 0

def inputEnded (b : ByteStream) : Bool := b.isInputEnded

def eof (b : ByteStream) : Bool := b.isInputEnded && b.bufferEmpty

def endInput (b : ByteStream) : ByteStream := { b with isInputEnded := true }

def setError (b : ByteStream) : ByteStream := { b with error := true }

/-- The number of bytes `write` accepts, which is also what it returns. -/
def writeSize (b : ByteStream) (data : List Byte) : ℕ := min data.length b.remainingCapacity

def writeLoop (b : ByteStream) : List Byte → ByteStream
  | [] => b
  | c :: cs => writeLoop { b with
      buffer := b.buffer.set b.endOfBuffer c
      endOfBuffer := addMod 32 b.endOfBuffer 1 } cs

/-- In the source a call that takes `2 ^ 32` bytes or more never returns, because its 32-bit
index stays below `writeSize`; here it returns. -/
def write (b : ByteStream) (data : List Byte) : ByteStream :=
  let n := b.writeSize data
  let b' := b.writeLoop (data.take n)
  { b' with bytesWritten := addMod 32 b'.bytesWritten n }

def peekOutput (b : ByteStream) (len : ℕ) : List Byte := b.buffer.take len

/-- The copying loop of `pop_output`: `n` iterations are left and `i` is its index. -/
def shiftLoop (len : ℕ) : List Byte → ℕ → ℕ → List Byte
  | buffer, _, 0 => buffer
  | buffer, i, n + 1 => shiftLoop len (buffer.set (subMod 64 i len) (buffer.getD i 0)) (i + 1) n

def popOutput (b : ByteStream) (len : ℕ) : ByteStream :=
  let i := len % 2 ^ 32
  { b with
    buffer := shiftLoop len b.buffer i (b.endOfBuffer - i)
    endOfBuffer := subMod 32 b.endOfBuffer len
    bytesRead := addMod 32 b.bytesRead len }

def readLen (b : ByteStream) (len : ℕ) : ℕ :=
  if len < b.endOfBuffer then len else b.endOfBuffer

def read (b : ByteStream) (len : ℕ) : List Byte × ByteStream :=
  (b.peekOutput (b.readLen len), b.popOutput (b.readLen len))

/-- The bytes written and not yet popped. -/
def contents (b : ByteStream) : List Byte := b.buffer.take b.endOfBuffer

/-- The backing string has its fixed length and the end marker lies inside it. -/
structure Wf (b : ByteStream) : Prop where
  length_buffer : b.buffer.length = b.capacity
  end_le : b.endOfBuffer ≤ b.capacity
  end_lt : b.endOfBuffer < 2 ^ 32
  capacity_le : b.capacity ≤ stringMaxSize

namespace Wf
variable {b : ByteStream}

theorem capacity_lt (h : b.Wf) : b.capacity < 2 ^ 64 := by
  have := h.capacity_le
  simp only [stringMaxSize] at this
  omega

theorem remainingCapacity_eq (h : b.Wf) : b.remainingCapacity = b.capacity - b.endOfBuffer :=
  subMod_of_le h.end_le h.capacity_lt

theorem length_contents (h : b.Wf) : b.contents.length = b.endOfBuffer := by
  have := h.length_buffer
  have := h.end_le
  simp only [contents, List.length_take]
  omega

theorem bufferEmpty_iff (h : b.Wf) : b.bufferEmpty = true ↔ b.contents = [] := by
  rw [← List.length_eq_zero_iff, h.length_contents, bufferEmpty, beq_iff_eq]

theorem endInput (h : b.Wf) : b.endInput.Wf :=
  ⟨h.length_buffer, h.end_le, h.end_lt, h.capacity_le⟩

theorem setError (h : b.Wf) : b.setError.Wf :=
  ⟨h.length_buffer, h.end_le, h.end_lt, h.capacity_le⟩

end Wf

theorem new_eq_some {capacity : ℕ} {b : ByteStream} (h : new capacity = some b) :
    capacity ≤ stringMaxSize ∧
      b = ⟨capacity, List.replicate capacity space, 0, 0, 0, false, false⟩ := by
  rw [new] at h
  split at h
  · next hc => exact ⟨hc, (Option.some.inj h).symm⟩
  · cases h

theorem wf_new {capacity : ℕ} {b : ByteStream} (h : new capacity = some b) : b.Wf := by
  obtain ⟨hc, rfl⟩ := new_eq_some h
  exact ⟨by simp, by simp, by simp, hc⟩

/-- The writing loop touches the buffer and its end marker only. -/
theorem writeLoop_frame (cs : List Byte) (b : ByteStream) :
    b.writeLoop cs = { b with
      buffer := (b.writeLoop cs).buffer, endOfBuffer := (b.writeLoop cs).endOfBuffer } ∧
    (b.writeLoop cs).buffer.length = b.buffer.length ∧
    (b.endOfBuffer < 2 ^ 32 → (b.writeLoop cs).endOfBuffer < 2 ^ 32) := by
  induction cs generalizing b with
  | nil => exact ⟨rfl, rfl, id⟩
  | cons c cs ih =>
    obtain ⟨hframe, hlen, hlt⟩ := ih { b with
      buffer := b.buffer.set b.endOfBuffer c
      endOfBuffer := addMod 32 b.endOfBuffer 1 }
    rw [writeLoop]
    exact ⟨hframe, by rw [hlen, List.length_set], fun _ => hlt (addMod_lt 32 _ 1)⟩

theorem writeLoop_endOfBuffer (cs : List Byte) (b : ByteStream) (h : b.endOfBuffer < 2 ^ 32) :
    (b.writeLoop cs).endOfBuffer = addMod 32 b.endOfBuffer cs.length := by
  induction cs generalizing b with
  | nil => exact (addMod_zero_right h).symm
  | cons c cs ih =>
    have hcs := ih { b with
      buffer := b.buffer.set b.endOfBuffer c
      endOfBuffer := addMod 32 b.endOfBuffer 1 } (addMod_lt 32 _ 1)
    rw [writeLoop, hcs, addMod_addMod, List.length_cons, Nat.add_comm 1]

/-- While the marker does not wrap, the writing loop appends its argument to the contents. -/
theorem writeLoop_spec (cs : List Byte) (b : ByteStream)
    (hroom : b.endOfBuffer + cs.length ≤ b.buffer.length)
    (hword : b.endOfBuffer + cs.length < 2 ^ 32) :
    (b.writeLoop cs).contents = b.contents ++ cs ∧
    (b.writeLoop cs).endOfBuffer = b.endOfBuffer + cs.length := by
  induction cs generalizing b with
  | nil => simp [writeLoop]
  | cons c cs ih =>
    simp only [List.length_cons] at hroom hword
    have hadd : addMod 32 b.endOfBuffer 1 = b.endOfBuffer + 1 := addMod_of_lt (by omega)
    have hmark : b.endOfBuffer < b.buffer.length := by omega
    obtain ⟨hc, he⟩ := ih { b with
      buffer := b.buffer.set b.endOfBuffer c
      endOfBuffer := addMod 32 b.endOfBuffer 1 }
      (by simp only [hadd, List.length_set]; omega) (by simp only [hadd]; omega)
    have htake : (b.buffer.set b.endOfBuffer c).take (b.endOfBuffer + 1) =
        b.buffer.take b.endOfBuffer ++ [c] := by
      rw [List.take_add_one, List.take_set_of_le (le_refl _)]
      simp [hmark]
    refine ⟨?_, ?_⟩
    · rw [writeLoop, hc]
      simp only [contents, hadd, htake, List.append_assoc, List.singleton_append]
    · rw [writeLoop, he, hadd]
      simp only [List.length_cons]
      omega

theorem writeSize_le_length (b : ByteStream) (data : List Byte) :
    b.writeSize data ≤ data.length := Nat.min_le_left _ _

/-- Outside the buffer and its end marker `write` changes only the written counter. -/
theorem write_frame (b : ByteStream) (data : List Byte) :
    b.write data = { b with
      buffer := (b.write data).buffer
      endOfBuffer := (b.write data).endOfBuffer
      bytesWritten := addMod 32 b.bytesWritten (b.writeSize data) } := by
  obtain ⟨hframe, -, -⟩ := writeLoop_frame (data.take (b.writeSize data)) b
  have hwrite : b.write data = { b.writeLoop (data.take (b.writeSize data)) with
      bytesWritten := addMod 32 (b.writeLoop (data.take (b.writeSize data))).bytesWritten
        (b.writeSize data) } := rfl
  rw [hwrite]
  generalize b.writeLoop (data.take (b.writeSize data)) = b' at hframe ⊢
  rw [hframe]

section Write
variable {b : ByteStream} {data : List Byte}

theorem Wf.writeSize_eq (h : b.Wf) (data : List Byte) :
    b.writeSize data = min data.length (b.capacity - b.endOfBuffer) := by
  rw [writeSize, h.remainingCapacity_eq]

private theorem writeLoop_take (h : b.Wf) (hword : b.endOfBuffer + b.writeSize data < 2 ^ 32) :
    (b.writeLoop (data.take (b.writeSize data))).contents =
        b.contents ++ data.take (b.writeSize data) ∧
    (b.writeLoop (data.take (b.writeSize data))).endOfBuffer =
        b.endOfBuffer + b.writeSize data := by
  have hlen : (data.take (b.writeSize data)).length = b.writeSize data := by
    simp [b.writeSize_le_length data]
  have hsize := h.writeSize_eq data
  have hend := h.end_le
  have hbuf := h.length_buffer
  have hspec := writeLoop_spec (data.take (b.writeSize data)) b
    (by rw [hlen]; omega) (by rw [hlen]; omega)
  rwa [hlen] at hspec

theorem Wf.contents_write (h : b.Wf) (hword : b.endOfBuffer + b.writeSize data < 2 ^ 32) :
    (b.write data).contents = b.contents ++ data.take (b.writeSize data) :=
  (writeLoop_take h hword).1

theorem Wf.endOfBuffer_write (h : b.Wf) (hword : b.endOfBuffer + b.writeSize data < 2 ^ 32) :
    (b.write data).endOfBuffer = b.endOfBuffer + b.writeSize data :=
  (writeLoop_take h hword).2

/-- The end marker after any write; it wraps when the contents reach `2 ^ 32` bytes. -/
theorem Wf.endOfBuffer_write_eq (h : b.Wf) :
    (b.write data).endOfBuffer = addMod 32 b.endOfBuffer (b.writeSize data) := by
  have hlen : (data.take (b.writeSize data)).length = b.writeSize data := by
    simp [b.writeSize_le_length data]
  have hloop := writeLoop_endOfBuffer (data.take (b.writeSize data)) b h.end_lt
  rwa [hlen] at hloop

/-- A capacity below `2 ^ 32` keeps the end marker from wrapping. -/
theorem Wf.word_of_capacity (h : b.Wf) (hcap : b.capacity < 2 ^ 32) :
    b.endOfBuffer + b.writeSize data < 2 ^ 32 := by
  have hsize := h.writeSize_eq data
  have hend := h.end_le
  omega

/-- Well-formedness survives every write: with a larger capacity even a wrapped marker lies
inside the buffer. -/
theorem Wf.write (h : b.Wf) : (b.write data).Wf := by
  have hframe := b.write_frame data
  have hcap : (b.write data).capacity = b.capacity := by rw [hframe]
  obtain ⟨-, hlen, hlt⟩ := writeLoop_frame (data.take (b.writeSize data)) b
  have hword : (b.write data).endOfBuffer < 2 ^ 32 := hlt h.end_lt
  refine ⟨?_, ?_, hword, ?_⟩
  · rw [hcap, ← h.length_buffer]
    exact hlen
  · rw [hcap]
    by_cases hsmall : b.capacity < 2 ^ 32
    · rw [h.endOfBuffer_write (h.word_of_capacity hsmall)]
      have hsize := h.writeSize_eq data
      have hend := h.end_le
      omega
    · omega
  · rw [hcap]
    exact h.capacity_le

end Write

theorem shiftLoop_getElem? (len : ℕ) (buffer : List Byte) (j n : ℕ)
    (hbuf : buffer.length < 2 ^ 64) (hn : len + j + n ≤ buffer.length) (k : ℕ) :
    (shiftLoop len buffer (len + j) n)[k]? =
      if j ≤ k ∧ k < j + n then buffer[k + len]? else buffer[k]? := by
  induction n generalizing buffer j with
  | zero => rw [shiftLoop, if_neg (by omega)]
  | succ n ih =>
    have hpos : subMod 64 (len + j) len = j := by rw [subMod_of_le (by omega) (by omega)]; omega
    have hval : buffer.getD (len + j) 0 = buffer[len + j] := by
      rw [List.getD_eq_getElem?_getD, List.getElem?_eq_getElem, Option.getD_some]
    rw [shiftLoop, hpos, hval, Nat.add_assoc, ih _ _ (by simpa using hbuf) (by simp; omega)]
    simp only [List.getElem?_set]
    rcases lt_trichotomy j k with hjk | rfl | hjk
    · by_cases hk : k < j + (n + 1)
      · rw [if_pos (by omega), if_neg (by omega), if_pos (by omega)]
      · rw [if_neg (by omega), if_neg (by omega), if_neg (by omega)]
    · rw [if_neg (by omega), if_pos rfl, if_pos (by omega), if_pos (by omega),
        Nat.add_comm j len, List.getElem?_eq_getElem]
    · rw [if_neg (by omega), if_neg (by omega), if_neg (by omega)]

theorem length_shiftLoop (len : ℕ) (buffer : List Byte) (i n : ℕ) :
    (shiftLoop len buffer i n).length = buffer.length := by
  induction n generalizing buffer i with
  | zero => rfl
  | succ n ih => rw [shiftLoop, ih, List.length_set]

section Pop
variable {b : ByteStream} {len : ℕ}

theorem Wf.endOfBuffer_popOutput (h : b.Wf) (hlen : len ≤ b.endOfBuffer) :
    (b.popOutput len).endOfBuffer = b.endOfBuffer - len :=
  subMod_of_le hlen h.end_lt

theorem Wf.contents_popOutput (h : b.Wf) (hlen : len ≤ b.endOfBuffer) :
    (b.popOutput len).contents = b.contents.drop len := by
  have hword := h.end_lt
  have hend := h.end_le
  have hbuf := h.length_buffer
  have hcap := h.capacity_lt
  have hi : len % 2 ^ 32 = len := Nat.mod_eq_of_lt (by omega)
  have hloop := shiftLoop_getElem? len b.buffer 0 (b.endOfBuffer - len) (by omega) (by omega)
  simp only [contents]
  rw [h.endOfBuffer_popOutput hlen]
  apply List.ext_getElem?
  intro k
  rw [List.getElem?_take, List.getElem?_drop, List.getElem?_take]
  simp only [popOutput, hi]
  by_cases hk : k < b.endOfBuffer - len
  · have := hloop k
    simp only [Nat.add_zero] at this
    rw [if_pos hk, if_pos (by omega), this, if_pos (by omega), Nat.add_comm]
  · rw [if_neg hk, if_neg (by omega)]

theorem Wf.popOutput (h : b.Wf) (hlen : len ≤ b.endOfBuffer) : (b.popOutput len).Wf := by
  have hend := h.endOfBuffer_popOutput hlen
  have hle := h.end_le
  have hlt := h.end_lt
  refine ⟨?_, ?_, ?_, h.capacity_le⟩
  · rw [ByteStream.popOutput, length_shiftLoop]
    exact h.length_buffer
  · rw [hend]
    simp only [ByteStream.popOutput]
    omega
  · omega

theorem readLen_eq (b : ByteStream) (len : ℕ) : b.readLen len = min len b.endOfBuffer := by
  rw [readLen]
  split <;> omega

theorem readLen_le (b : ByteStream) (len : ℕ) : b.readLen len ≤ b.endOfBuffer := by
  rw [readLen_eq]
  exact Nat.min_le_right _ _

/-- `read` returns the first bytes of the contents and leaves the others. -/
theorem read_fst (b : ByteStream) (len : ℕ) : (b.read len).1 = b.contents.take len := by
  simp only [read, peekOutput, contents, List.take_take, readLen_eq]

theorem Wf.contents_read (h : b.Wf) : (b.read len).2.contents = b.contents.drop len := by
  rw [read, h.contents_popOutput (b.readLen_le len), readLen_eq]
  have hlen := h.length_contents
  by_cases hc : len ≤ b.endOfBuffer
  · rw [Nat.min_eq_left hc]
  · rw [Nat.min_eq_right (by omega), List.drop_of_length_le (by omega),
      List.drop_of_length_le (by omega)]

end Pop
end ByteStream
end Sponge
