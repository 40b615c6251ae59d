import Sponge.BigEndian
import Sponge.ByteStream

/-!
# Buffers, and reading and writing integers in network byte order

A buffer is the string it shows. The parser is a state, the rest of its buffer and
an error that stays once it is set; `Reads` says how many bytes a parser takes and what
it makes of them.
-/
namespace Sponge
open BigEndian

abbrev Buffer := List Byte

abbrev BufferList := List Buffer

namespace BufferList

def size (l : BufferList) : ℕ := (l.map List.length).sum

def concatenate (l : BufferList) : List Byte := l.flatten

/-- The conversion to one buffer; it throws unless the list is contiguous. -/
def toBuffer : BufferList → Except String Buffer
  | [] => .ok []
  | [buffer] => .ok buffer
  | _ => .error "BufferList: please use concatenate() to combine a multi-Buffer BufferList into one Buffer"

theorem length_concatenate (l : BufferList) : l.concatenate.length = l.size :=
  List.length_flatten

end BufferList

inductive ParseResult where
  | noError
  | badChecksum
  | packetTooShort
  | wrongIPVersion
  | headerTooShort
  | truncatedPacket
  | unsupported
  deriving DecidableEq

structure NetParser where
  buffer : Buffer
  error : ParseResult := .noError
  deriving DecidableEq

namespace NetParser

def checkSize (size : ℕ) : StateM NetParser Unit :=
  modify fun p => if p.buffer.length < size then { p with error := .packetTooShort } else p

def parseInt (len : ℕ) : StateM NetParser ℕ := do
  checkSize len
  let p ← get
  if p.error ≠ .noError then return 0
  set { p with buffer := p.buffer.drop len }
  return decode (p.buffer.take len)

def u32 : StateM NetParser UInt32 := UInt32.ofNat <$> parseInt 4

def u16 : StateM NetParser UInt16 := UInt16.ofNat <$> parseInt 2

def u8 : StateM NetParser UInt8 := UInt8.ofNat <$> parseInt 1

def removePrefix (n : ℕ) : StateM NetParser Unit := do
  checkSize n
  let p ← get
  if p.error ≠ .noError then return
  set { p with buffer := p.buffer.drop n }

/-- An error that is there stays. -/
def Sticky {α : Type} (m : StateM NetParser α) : Prop :=
  ∀ p, p.error ≠ .noError → (m.run p).2.error ≠ .noError

section Sticky
variable {α β : Type} {m : StateM NetParser α}

theorem Sticky.pure (a : α) : Sticky (Pure.pure a) := fun _ h => h

theorem Sticky.get : Sticky (MonadState.get : StateM NetParser NetParser) := fun _ h => h

theorem Sticky.bind (h : Sticky m) {f : α → StateM NetParser β} (hf : ∀ a, Sticky (f a)) :
    Sticky (m >>= f) := by
  intro p hp
  rw [StateT.run_bind]
  exact hf _ _ (h p hp)

theorem Sticky.ite {c : Prop} [Decidable c] {m' : StateM NetParser α} (h : Sticky m)
    (h' : Sticky m') : Sticky (if c then m else m') := by
  split
  · exact h
  · exact h'

end Sticky

/-- The parser `m` takes `n` bytes off the buffer and returns `v` of the buffer it found. If there
are fewer bytes it leaves an error. -/
structure Reads {α : Type} (n : ℕ) (v : Buffer → α) (m : StateM NetParser α) : Prop where
  enough : ∀ b, n ≤ b.length → m.run ⟨b, .noError⟩ = (v b, ⟨b.drop n, .noError⟩)
  short : ∀ b, b.length < n → (m.run ⟨b, .noError⟩).2.error ≠ .noError
  sticky : Sticky m

namespace Reads
variable {α β : Type} {n k : ℕ} {v : Buffer → α} {m : StateM NetParser α} {b : Buffer}

theorem pure (a : α) : Reads 0 (fun _ => a) (Pure.pure a) :=
  ⟨fun _ _ => rfl, fun _ h => absurd h (Nat.not_lt_zero _), .pure a⟩

theorem run_bind (h : Reads n v m) (hb : n ≤ b.length) (f : α → StateM NetParser β) :
    (m >>= f).run ⟨b, .noError⟩ = (f (v b)).run ⟨b.drop n, .noError⟩ := by
  rw [StateT.run_bind, h.enough b hb]
  rfl

theorem run_bind_error (h : Reads n v m) (hb : b.length < n) {f : α → StateM NetParser β}
    (hf : ∀ a, Sticky (f a)) : ((m >>= f).run ⟨b, .noError⟩).2.error ≠ .noError := by
  rw [StateT.run_bind]
  exact hf _ _ (h.short b hb)

theorem bind (h : Reads n v m) {w : α → Buffer → β} {f : α → StateM NetParser β}
    (hf : ∀ a, Reads k (w a) (f a)) :
    Reads (n + k) (fun b => w (v b) (b.drop n)) (m >>= f) := by
  refine ⟨?_, ?_, h.sticky.bind fun a => (hf a).sticky⟩
  · intro b hb
    have hrest : k ≤ (b.drop n).length := by
      rw [List.length_drop]
      omega
    rw [h.run_bind (by omega), (hf _).enough _ hrest, List.drop_drop]
  · intro b hb
    by_cases hn : n ≤ b.length
    · rw [h.run_bind hn]
      apply (hf _).short
      rw [List.length_drop]
      omega
    · exact h.run_bind_error (Nat.not_le.mp hn) fun a => (hf a).sticky

theorem congr {w : Buffer → α} (h : Reads n v m) (hvw : ∀ b, v b = w b) : Reads n w m :=
  (funext hvw : v = w) ▸ h

theorem map (h : Reads n v m) (f : α → β) : Reads n (fun b => f (v b)) (f <$> m) := by
  rw [map_eq_pure_bind]
  exact h.bind fun a => .pure (f a)

end Reads

/-- The parser `m` takes `n` bytes and returns `v` of the buffer, or, if there are fewer of them or
an error is set, takes none and returns `a`. -/
def Takes {α : Type} (n : ℕ) (a : α) (v : Buffer → α) (m : StateM NetParser α) : Prop :=
  ∀ p : NetParser, m.run p =
    if p.buffer.length < n then (a, { p with error := .packetTooShort })
    else if p.error ≠ .noError then (a, p)
    else (v p.buffer, { p with buffer := p.buffer.drop n })

namespace Takes
variable {α β : Type} {n : ℕ} {a : α} {v : Buffer → α} {m : StateM NetParser α}

theorem reads (h : Takes n a v m) : Reads n v m := by
  refine ⟨?_, ?_, ?_⟩
  · intro b hb
    rw [h, if_neg (Nat.not_lt.mpr hb), if_neg (not_not_intro rfl)]
  · intro b hb
    rw [h, if_pos hb]
    simp
  · intro p hp
    rw [h, if_pos hp]
    split
    · simp
    · exact hp

theorem map (h : Takes n a v m) (f : α → β) : Takes n (f a) (fun b => f (v b)) (f <$> m) := by
  intro p
  rw [StateT.run_map, h]
  split
  · rfl
  · split <;> rfl

end Takes

/-- The common shape of the reading functions: the size is checked, and on an error nothing is
taken. -/
theorem takes_checked {α : Type} (n : ℕ) (a : α) (v : Buffer → α) :
    Takes n a v (do
      checkSize n
      let p ← get
      if p.error ≠ .noError then return a
      set { p with buffer := p.buffer.drop n }
      return v p.buffer) := by
  intro p
  by_cases hsize : p.buffer.length < n
  · simp [checkSize, hsize]
    rfl
  · by_cases herror : p.error = .noError
    · simp [checkSize, hsize, herror]
      rfl
    · simp [checkSize, hsize, herror]
      rfl

theorem takes_parseInt (len : ℕ) : Takes len 0 (fun b => decode (b.take len)) (parseInt len) :=
  takes_checked len 0 _

theorem takes_removePrefix (n : ℕ) : Takes n () (fun _ => ()) (removePrefix n) :=
  takes_checked n () _

theorem reads_parseInt (len : ℕ) : Reads len (fun b => decode (b.take len)) (parseInt len) :=
  (takes_parseInt len).reads

theorem reads_removePrefix (n : ℕ) : Reads n (fun _ => ()) (removePrefix n) :=
  (takes_removePrefix n).reads

theorem reads_u32 : Reads 4 (fun b => UInt32.ofNat (field b 0 4)) u32 := (reads_parseInt 4).map _

theorem reads_u16 : Reads 2 (fun b => UInt16.ofNat (field b 0 2)) u16 := (reads_parseInt 2).map _

theorem reads_u8 : Reads 1 (fun b => UInt8.ofNat (field b 0 1)) u8 := (reads_parseInt 1).map _

end NetParser

namespace NetUnparser

def unparseInt (s : List Byte) (len val : ℕ) : List Byte :=
  s ++ (List.range len).map fun i => UInt8.ofNat ((val >>> ((len - i - 1) * 8)) &&& 0xff)

def u32 (s : List Byte) (val : UInt32) : List Byte := unparseInt s 4 val.toNat

def u16 (s : List Byte) (val : UInt16) : List Byte := unparseInt s 2 val.toNat

def u8 (s : List Byte) (val : UInt8) : List Byte := unparseInt s 1 val.toNat

@[simp] theorem unparseInt_eq (s : List Byte) (len val : ℕ) :
    unparseInt s len val = s ++ encode len val := by
  rw [unparseInt, map_range_shiftRight]

end NetUnparser

/-- `std::string::resize`; new bytes are zero. -/
def resize (s : List Byte) (n : ℕ) : List Byte := s.take n ++ List.replicate (n - s.length) 0

theorem resize_of_le {s : List Byte} {n : ℕ} (h : s.length ≤ n) :
    resize s n = s ++ List.replicate (n - s.length) 0 := by
  rw [resize, List.take_of_length_le h]

end Sponge
