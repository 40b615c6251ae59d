import Sponge.Loops
import Sponge.SharedBuffer

/-!
# Descriptors of byte streams

The calls the event loops make on a descriptor that carries a stream of bytes. What the kernel
returns is an argument; what went through the descriptor is kept as the two lists of bytes
`received` and `sent`. A kernel may fail any call. It does fail a write to a descriptor that was
closed or shut down for writing.
-/
namespace Sponge
open MachineWords

/-- What the program keeps about a kernel descriptor. Duplicates of a descriptor share it. -/
structure FDWrapper where
  eof : Bool := false
  closed : Bool := false
  readCount : ℕ := 0
  writeCount : ℕ := 0
  deriving DecidableEq

namespace FDWrapper

def registerRead (w : FDWrapper) : FDWrapper := { w with readCount := addMod 32 w.readCount 1 }

def registerWrite (w : FDWrapper) : FDWrapper := { w with writeCount := addMod 32 w.writeCount 1 }

def close (w : FDWrapper) : FDWrapper := { w with eof := true, closed := true }

/-- `FileDescriptor::read` after the system call: no bytes although some were asked for is the
end. -/
def noteRead (w : FDWrapper) (limit : ℕ) (bytes : List Byte) : FDWrapper :=
  { w with eof := w.eof || (decide (0 < limit) && bytes.isEmpty) }.registerRead

/-- A counter is moved by one use, also when it wraps. -/
theorem addMod_one_ne (n : ℕ) : addMod 32 n 1 ≠ n := by
  rw [addMod]
  omega

theorem addMod_two_ne (n : ℕ) : addMod 32 (addMod 32 n 1) 1 ≠ n := by
  rw [addMod_addMod, addMod]
  omega

end FDWrapper

/-- What the system calls on a descriptor return or throw: a read of at most so many bytes, a write
of the given ones. -/
structure Kernel where
  read : ℕ → Except String (List Byte)
  writev : List Byte → Except String ℕ
  shutdown : Except String Unit
  close : Except String Unit

/-- The calls succeed: a read returns no more than was asked for, and a write takes something if
there is something. -/
structure Kernel.Honest (k : Kernel) : Prop where
  read_ok : ∀ n, ∃ bytes, k.read n = .ok bytes ∧ bytes.length ≤ n
  writev_ok : ∀ bytes, ∃ n, k.writev bytes = .ok n ∧ n ≤ bytes.length ∧ (bytes ≠ [] → 0 < n)
  shutdown_ok : k.shutdown = .ok ()
  close_ok : k.close = .ok ()

structure FileDescriptor where
  wrapper : FDWrapper := {}
  received : List Byte := []
  sent : List Byte := []
  shutWr : Bool := false

namespace FileDescriptor

/-- `BUFFER_SIZE`, the maximum size of a read. -/
def maxReadSize : ℕ := 1024 * 1024

def read (f : FileDescriptor) (limit : ℕ) (k : Kernel) :
    Except String (List Byte × FileDescriptor) := do
  let sizeToRead := min maxReadSize limit
  let bytes ← k.read sizeToRead
  if sizeToRead < bytes.length then .error "read() read more than requested"
  else return (bytes, { f with
    wrapper := f.wrapper.noteRead limit bytes
    received := f.received ++ bytes })

/-- The error with which the kernel refuses every write. -/
def refusal (f : FileDescriptor) : Option String :=
  if f.wrapper.closed then some "writev: Bad file descriptor"
  else if f.shutWr then some "writev: Broken pipe"
  else none

/-- `write(buffer, false)`: the loop makes a single turn. -/
def writeSome (f : FileDescriptor) (bytes : List Byte) (k : Kernel) :
    Except String (ℕ × FileDescriptor) :=
  match f.refusal with
  | some message => .error message
  | none => do
    let written ← k.writev bytes
    let _ ← writeTurn [bytes] written
    return (written, { f with
      wrapper := f.wrapper.registerWrite
      sent := f.sent ++ bytes.take written })

/-- `shutdown(SHUT_WR)` of a socket. -/
def shutdownWr (f : FileDescriptor) (k : Kernel) : Except String FileDescriptor := do
  k.shutdown
  return { f with wrapper := f.wrapper.registerWrite, shutWr := true }

def close (f : FileDescriptor) (k : Kernel) : Except String FileDescriptor := do
  k.close
  return { f with wrapper := f.wrapper.close }

section Calls
variable {f f' : FileDescriptor} {limit n : ℕ} {bytes : List Byte} {k : Kernel}

theorem read_eq_ok (h : f.read limit k = .ok (bytes, f')) :
    bytes.length ≤ limit ∧ bytes.length ≤ maxReadSize ∧ f' = { f with
      wrapper := f.wrapper.noteRead limit bytes, received := f.received ++ bytes } := by
  obtain ⟨bytes₁, -, h⟩ := bind_eq_ok h
  split at h
  · cases h
  · next hle =>
    cases h
    exact ⟨by omega, by omega, rfl⟩

theorem read_ok (hk : k.Honest) (f : FileDescriptor) (limit : ℕ) :
    ∃ bytes f', f.read limit k = .ok (bytes, f') := by
  obtain ⟨bytes, hread, hle⟩ := hk.read_ok (min maxReadSize limit)
  have hle' : ¬ min maxReadSize limit < bytes.length := Nat.not_lt.mpr hle
  refine ⟨bytes, { f with
    wrapper := f.wrapper.noteRead limit bytes, received := f.received ++ bytes }, ?_⟩
  simp only [read, hread, bind, Except.bind, if_neg hle']
  rfl

theorem bytes_singleton (bytes : List Byte) : BufferViewList.bytes [bytes] = bytes :=
  List.append_nil bytes

/-- A turn of `write` succeeds for just the counts an honest kernel returns. -/
theorem writeTurn_isOk_iff (hfits : bytes.length ≤ stringMaxSize) :
    (∃ rest, writeTurn [bytes] n = .ok rest) ↔ n ≤ bytes.length ∧ (bytes ≠ [] → 0 < n) := by
  have hbytes := bytes_singleton bytes
  have hsize : BufferViewList.size [bytes] = bytes.length := by
    rw [size_of_fits (hbytes.symm ▸ hfits), hbytes]
  constructor
  · rintro ⟨rest, h⟩
    rw [writeTurn, hsize] at h
    split at h
    · cases h
    · next hsome =>
      split at h
      · cases h
      · next hle =>
        simp only [stringMaxSize] at hfits
        rw [signed, if_pos (by omega)] at hle
        refine ⟨by omega, fun hne => ?_⟩
        have hpos : bytes.length ≠ 0 := fun hzero => hne (List.length_eq_zero_iff.mp hzero)
        omega
  · rintro ⟨hle, hpos⟩
    cases bytes with
    | nil =>
      obtain rfl : n = 0 := by simpa using hle
      exact ⟨_, rfl⟩
    | cons b bytes =>
      have hfits' : (BufferViewList.bytes [b :: bytes]).length ≤ stringMaxSize :=
        hbytes.symm ▸ hfits
      have hle' : n ≤ (BufferViewList.bytes [b :: bytes]).length := hbytes.symm ▸ hle
      obtain ⟨rest, hturn, -⟩ := writeTurn_of_le hfits' (hpos (List.cons_ne_nil _ _)) hle'
      exact ⟨rest, hturn⟩

theorem writeSome_eq_ok (hfits : bytes.length ≤ stringMaxSize)
    (h : f.writeSome bytes k = .ok (n, f')) :
    f.refusal = none ∧ n ≤ bytes.length ∧ (bytes ≠ [] → 0 < n) ∧ f' = { f with
      wrapper := f.wrapper.registerWrite, sent := f.sent ++ bytes.take n } := by
  rw [writeSome] at h
  cases hrefusal : f.refusal with
  | some message =>
    rw [hrefusal] at h
    cases h
  | none =>
    rw [hrefusal] at h
    obtain ⟨written, -, h⟩ := bind_eq_ok h
    obtain ⟨rest, hturn, h⟩ := bind_eq_ok h
    cases h
    obtain ⟨hle, hpos⟩ := (writeTurn_isOk_iff hfits).mp ⟨rest, hturn⟩
    exact ⟨rfl, hle, hpos, rfl⟩

theorem writeSome_ok (hk : k.Honest) (hopen : f.refusal = none)
    (hfits : bytes.length ≤ stringMaxSize) : ∃ n f', f.writeSome bytes k = .ok (n, f') := by
  obtain ⟨n, hwrite, hle, hpos⟩ := hk.writev_ok bytes
  obtain ⟨rest, hturn⟩ := (writeTurn_isOk_iff hfits).mpr ⟨hle, hpos⟩
  refine ⟨n, { f with
    wrapper := f.wrapper.registerWrite, sent := f.sent ++ bytes.take n }, ?_⟩
  simp only [writeSome, hopen, hwrite, hturn, bind, Except.bind]
  rfl

theorem shutdownWr_eq_ok (h : f.shutdownWr k = .ok f') :
    f' = { f with wrapper := f.wrapper.registerWrite, shutWr := true } := by
  obtain ⟨-, -, h⟩ := bind_eq_ok h
  exact (Except.ok.inj h).symm

theorem close_eq_ok (h : f.close k = .ok f') : f' = { f with wrapper := f.wrapper.close } := by
  obtain ⟨-, -, h⟩ := bind_eq_ok h
  exact (Except.ok.inj h).symm

theorem shutdownWr_ok (hk : k.Honest) (f : FileDescriptor) : ∃ f', f.shutdownWr k = .ok f' := by
  simp only [shutdownWr, hk.shutdown_ok]
  exact ⟨_, rfl⟩

theorem close_ok (hk : k.Honest) (f : FileDescriptor) : ∃ f', f.close k = .ok f' := by
  simp only [close, hk.close_ok]
  exact ⟨_, rfl⟩

end Calls

end FileDescriptor
end Sponge
