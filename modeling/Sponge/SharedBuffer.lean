import Sponge.Loops
import Sponge.NetParser
import Sponge.Pieces

/-!
# Buffers with shared storage

A buffer is a reference-counted string and the number of bytes discarded from its front; the
string is given up once all of it is discarded. A buffer list is a queue of buffers, a view list
the queue of the strings they show. Both are sequences in pieces and behave like the one string
that `concatenate` makes of them.
-/
namespace Sponge
open MachineWords

structure SharedBuffer where
  storage : Option (List Byte)
  startingOffset : ℕ
  offset_le : ∀ s ∈ storage, startingOffset ≤ s.length

namespace SharedBuffer

/-- The buffer that owns the string `s`. -/
def ofString (s : List Byte) : SharedBuffer := ⟨some s, 0, fun _ _ => Nat.zero_le _⟩

def str (b : SharedBuffer) : Buffer :=
  match b.storage with
  | none => []
  | some s => s.drop b.startingOffset

def size (b : SharedBuffer) : ℕ := b.str.length

/-- `Buffer::at`. -/
def byteAt (b : SharedBuffer) (n : ℕ) : Except String Byte :=
  match b.str[n]? with
  | some byte => .ok byte
  | none => .error "basic_string_view::at"

theorem offset_add_le {b : SharedBuffer} {n : ℕ} (h : n ≤ b.size) :
    ∀ s ∈ b.storage, b.startingOffset + n ≤ s.length := by
  intro s hs
  have hle := b.offset_le s hs
  rw [size, str, Option.mem_def.mp hs, List.length_drop] at h
  omega

/-- The storage is released when the offset reaches its end; the offset stays. -/
def removePrefix (b : SharedBuffer) (n : ℕ) : Except String SharedBuffer :=
  if h : b.size < n then .error "Buffer::remove_prefix"
  else if b.storage.any fun s => b.startingOffset + n == s.length then
    .ok ⟨none, b.startingOffset + n, by simp⟩
  else .ok ⟨b.storage, b.startingOffset + n, offset_add_le (Nat.not_lt.mp h)⟩

theorem removePrefix_of_le {b : SharedBuffer} {n : ℕ} (h : n ≤ b.size) :
    ∃ b', b.removePrefix n = .ok b' ∧ b'.str = b.str.drop n := by
  rw [removePrefix, dif_neg (Nat.not_lt.mpr h)]
  split
  · next hall =>
    -- all of the string is discarded
    refine ⟨_, rfl, ?_⟩
    simp only [str]
    cases hstorage : b.storage with
    | none => simp
    | some s =>
      have hend : b.startingOffset + n = s.length := by simpa [hstorage] using hall
      simp [hend]
  · refine ⟨_, rfl, ?_⟩
    simp only [str]
    cases b.storage with
    | none => simp
    | some s => simp

end SharedBuffer

/-- The pieces of a buffer list. -/
def bufferPieces : Pieces String SharedBuffer Byte where
  shown := SharedBuffer.str
  cut := SharedBuffer.removePrefix
  underflow := "BufferList::remove_prefix"
  cut_lt := fun _ _ h => SharedBuffer.removePrefix_of_le h.le

/-- The pieces of a view list: `string_view::remove_prefix` moves the start of the view. -/
def viewPieces : Pieces String Buffer Byte where
  shown := id
  cut := fun view n => .ok (view.drop n)
  underflow := "BufferListView::remove_prefix"
  cut_lt := fun _ _ _ => ⟨_, rfl, rfl⟩

abbrev SharedBufferList := List SharedBuffer

namespace SharedBufferList

def size (l : SharedBufferList) : ℕ := l.foldl (fun ret buf => addMod 64 ret buf.size) 0

def append (l other : SharedBufferList) : SharedBufferList :=
  other.foldl (fun l buf => l ++ [buf]) l

def removePrefix (l : SharedBufferList) (n : ℕ) : Except String SharedBufferList :=
  bufferPieces.remove l n

/-- `reserve` and `append` of the result throw `length_error`, here `none`, above
`stringMaxSize`. -/
def concatenate (l : SharedBufferList) : Option (List Byte) :=
  if stringMaxSize < l.size then none
  else l.foldlM (fun ret buf =>
    if stringMaxSize < ret.length + buf.size then none else some (ret ++ buf.str)) []

/-- The strings the buffers show. -/
def shown (l : SharedBufferList) : BufferList := l.map SharedBuffer.str

end SharedBufferList

abbrev BufferViewList := List Buffer

namespace BufferViewList

def ofList (l : SharedBufferList) : BufferViewList :=
  l.foldl (fun views buf => views ++ [buf.str]) []

def size (v : BufferViewList) : ℕ := v.foldl (fun ret view => addMod 64 ret view.length) 0

def removePrefix (v : BufferViewList) (n : ℕ) : Except String BufferViewList :=
  viewPieces.remove v n

/-- The bytes `writev` is given: the data of the `iovec`s in order. -/
def bytes (v : BufferViewList) : List Byte := viewPieces.contents v

end BufferViewList

/-- A sum of sizes in 64 bits. -/
theorem foldl_addMod_size {α β : Type} (f : α → List β) (l : List α) (n : ℕ) :
    l.foldl (fun ret x => addMod 64 ret (f x).length) (n % 2 ^ 64) =
      (n + (l.flatMap f).length) % 2 ^ 64 := by
  induction l generalizing n with
  | nil => simp
  | cons x l ih =>
    have hstep : addMod 64 (n % 2 ^ 64) (f x).length = (n + (f x).length) % 2 ^ 64 :=
      Nat.mod_add_mod _ _ _
    rw [List.foldl_cons, hstep, ih, List.flatMap_cons, List.length_append, Nat.add_assoc]

/-- A size that a string can have fits in a word. -/
theorem mod_of_le_stringMaxSize {n : ℕ} (h : n ≤ stringMaxSize) : n % 2 ^ 64 = n := by
  apply Nat.mod_eq_of_lt
  simp only [stringMaxSize] at h
  omega

theorem foldl_snoc {α β : Type} (f : α → β) (l : List α) (acc : List β) :
    l.foldl (fun acc x => acc ++ [f x]) acc = acc ++ l.map f := by
  induction l generalizing acc with
  | nil => simp
  | cons x l ih => simp [ih]

namespace SharedBufferList
variable {l other : SharedBufferList} {s t : List Byte} {n : ℕ}

theorem concatenate_shown (l : SharedBufferList) :
    l.shown.concatenate = bufferPieces.contents l := (List.flatMap_def ..).symm

theorem size_eq (l : SharedBufferList) : l.size = l.shown.concatenate.length % 2 ^ 64 := by
  have hsum := foldl_addMod_size SharedBuffer.str l 0
  rw [Nat.zero_add, Nat.zero_mod] at hsum
  rw [concatenate_shown]
  exact hsum

theorem append_eq (l other : SharedBufferList) : l.append other = l ++ other := by
  rw [append]
  exact (foldl_snoc id other l).trans (by rw [List.map_id])

theorem shown_append (l other : SharedBufferList) :
    (l.append other).shown = l.shown ++ other.shown := by
  rw [append_eq, shown, List.map_append]
  rfl

theorem foldlM_concatenate (l : SharedBufferList) {ret : List Byte}
    (hret : ret.length ≤ stringMaxSize) :
    (l.foldlM (fun ret buf =>
      if stringMaxSize < ret.length + buf.size then none else some (ret ++ buf.str)) ret :
        Option (List Byte)) =
      if ret.length + l.shown.concatenate.length ≤ stringMaxSize then
        some (ret ++ l.shown.concatenate) else none := by
  simp only [concatenate_shown]
  induction l generalizing ret with
  | nil => simp [hret]
  | cons buf l ih =>
    have hlen : (bufferPieces.contents (buf :: l)).length =
        buf.size + (bufferPieces.contents l).length := List.length_append
    rw [List.foldlM_cons, hlen]
    by_cases hbuf : stringMaxSize < ret.length + buf.size
    · rw [if_pos hbuf, if_neg (by omega)]
      rfl
    · have hnext : (ret ++ buf.str).length = ret.length + buf.size := List.length_append
      rw [if_neg hbuf, Option.bind_eq_bind, Option.bind_some, ih (by omega), hnext, Nat.add_assoc,
        List.append_assoc]
      rfl

theorem concatenate_eq (l : SharedBufferList) :
    l.concatenate =
      if l.shown.concatenate.length ≤ stringMaxSize then some l.shown.concatenate else none := by
  have hfold := foldlM_concatenate l (show ([] : List Byte).length ≤ stringMaxSize by simp)
  rw [List.length_nil, Nat.zero_add, List.nil_append] at hfold
  rw [concatenate]
  split
  · next hsize =>
    have hle : l.size ≤ l.shown.concatenate.length := by
      rw [size_eq]
      exact Nat.mod_le _ _
    rw [if_neg (by omega)]
  · exact hfold

theorem concatenate_eq_some_iff :
    l.concatenate = some s ↔ s.length ≤ stringMaxSize ∧ l.shown.concatenate = s := by
  rw [concatenate_eq]
  split
  · next hle =>
    rw [Option.some.injEq]
    constructor
    · rintro rfl
      exact ⟨hle, rfl⟩
    · exact And.right
  · next hlt =>
    constructor
    · intro h
      cases h
    · rintro ⟨hle, rfl⟩
      exact absurd hle hlt

/-- A list that can be concatenated has the size of the string it is concatenated to. -/
theorem size_of_concatenate (h : l.concatenate = some s) : l.size = s.length := by
  obtain ⟨hle, rfl⟩ := concatenate_eq_some_iff.mp h
  rw [size_eq, mod_of_le_stringMaxSize hle]

theorem shown_ofList (l : SharedBufferList) : BufferViewList.ofList l = l.shown :=
  (foldl_snoc SharedBuffer.str l []).trans (List.nil_append _)

theorem bytes_ofList (l : SharedBufferList) :
    bufferPieces.contents l = viewPieces.contents (BufferViewList.ofList l) := by
  rw [shown_ofList, ← concatenate_shown]
  exact (List.flatMap_id ..).symm

theorem removePrefix_error_iff :
    (∃ message, l.removePrefix n = .error message) ↔ l.shown.concatenate.length < n := by
  rw [concatenate_shown]
  exact bufferPieces.remove_error_iff

theorem shown_removePrefix {l' : SharedBufferList} (h : l.removePrefix n = .ok l') :
    l'.shown.concatenate = l.shown.concatenate.drop n := by
  rw [concatenate_shown, concatenate_shown]
  exact (bufferPieces.contents_of_remove h).2

theorem concatenate_removePrefix {l' : SharedBufferList} (hs : l.concatenate = some s)
    (h : l.removePrefix n = .ok l') : l'.concatenate = some (s.drop n) := by
  obtain ⟨hle, rfl⟩ := concatenate_eq_some_iff.mp hs
  refine concatenate_eq_some_iff.mpr ⟨?_, shown_removePrefix h⟩
  rw [List.length_drop]
  omega

theorem concatenate_removals {l' : SharedBufferList} {ns : List ℕ} (hs : l.concatenate = some s)
    (h : ns.foldlM removePrefix l = .ok l') : ∃ t, l'.concatenate = some t := by
  refine foldlM_invariant (I := fun l : SharedBufferList => ∃ t, l.concatenate = some t) ?_
    ⟨s, hs⟩ h
  rintro l n l' ⟨t, ht⟩ hn
  exact ⟨_, concatenate_removePrefix ht hn⟩

end SharedBufferList

namespace BufferViewList

theorem size_eq (v : BufferViewList) : v.size = v.bytes.length % 2 ^ 64 := by
  have hsum := foldl_addMod_size id v 0
  rw [Nat.zero_add, Nat.zero_mod] at hsum
  exact hsum

/-- The two calls return lists of the same size and bytes, or both throw. -/
def Follows : Except String SharedBufferList → Except String BufferViewList → Prop
  | .ok l, .ok v => v.size = l.size ∧ l.concatenate = some v.bytes
  | .error _, .error _ => True
  | _, _ => False

/-- A view list goes through the removals as the list it was made from does. -/
theorem follows_removals {l : SharedBufferList} {s : List Byte} (hs : l.concatenate = some s)
    (ns : List ℕ) :
    Follows (ns.foldlM SharedBufferList.removePrefix l) (ns.foldlM removePrefix (ofList l)) := by
  have hagree := Pieces.removals_agree l.bytes_ofList ns
  change Pieces.Agree _ _ (ns.foldlM SharedBufferList.removePrefix l)
    (ns.foldlM removePrefix (ofList l)) at hagree
  obtain ⟨l', v, hl, hv, hcontents⟩ | ⟨message, message', hl, hv⟩ := Pieces.agree_cases hagree
  · have hbytes : (SharedBufferList.shown l').concatenate = bytes v :=
      (SharedBufferList.concatenate_shown l').trans hcontents
    obtain ⟨t, ht⟩ := SharedBufferList.concatenate_removals hs hl
    obtain ⟨-, rfl⟩ := SharedBufferList.concatenate_eq_some_iff.mp ht
    rw [hbytes] at ht
    rw [hl, hv]
    exact ⟨by rw [size_eq, SharedBufferList.size_eq, hbytes], ht⟩
  · rw [hl, hv]
    trivial

end BufferViewList

namespace SharedBufferList
variable {l : SharedBufferList} {s : List Byte}

/-- A list of buffers behaves like the string it can be concatenated to, and so do its views. -/
theorem behaves_like_concatenation (hs : l.concatenate = some s) :
    l.size = s.length ∧
    (∀ n, (∃ message, l.removePrefix n = .error message) ↔ l.size < n) ∧
    (∀ n l', l.removePrefix n = .ok l' → l'.concatenate = some (s.drop n)) ∧
    (∀ other t, other.concatenate = some t → (s ++ t).length ≤ stringMaxSize →
      (l.append other).concatenate = some (s ++ t)) ∧
    ∀ ns : List ℕ, BufferViewList.Follows (ns.foldlM removePrefix l)
      (ns.foldlM BufferViewList.removePrefix (.ofList l)) := by
  have hsize := size_of_concatenate hs
  refine ⟨hsize, ?_, fun n l' => concatenate_removePrefix hs, ?_,
    BufferViewList.follows_removals hs⟩
  · intro n
    rw [removePrefix_error_iff, hsize, (concatenate_eq_some_iff.mp hs).2]
  · intro other t ht hfits
    obtain ⟨-, rfl⟩ := concatenate_eq_some_iff.mp hs
    obtain ⟨-, rfl⟩ := concatenate_eq_some_iff.mp ht
    refine concatenate_eq_some_iff.mpr ⟨hfits, ?_⟩
    rw [shown_append]
    exact List.flatten_append

/-- A whole buffer, one that is used up, an empty one, and one with two bytes removed. -/
def someRemoved : SharedBufferList :=
  [.ofString [1, 2, 3], ⟨none, 4, by simp⟩, .ofString [], ⟨some [7, 8, 9], 2, by simp⟩]

theorem behaves_like_concatenation_someRemoved :
    someRemoved.concatenate = some [1, 2, 3, 9] ∧ someRemoved.size = [1, 2, 3, 9].length ∧
      (∀ n, (∃ message, someRemoved.removePrefix n = .error message) ↔ someRemoved.size < n) ∧
      ∀ n l', someRemoved.removePrefix n = .ok l' → l'.concatenate = some ([1, 2, 3, 9].drop n) := by
  have hs : someRemoved.concatenate = some [1, 2, 3, 9] := by decide
  have hall := behaves_like_concatenation hs
  exact ⟨hs, hall.1, hall.2.1, hall.2.2.1⟩

end SharedBufferList

namespace FileDescriptor

/-- `ssize_t(n)`. -/
def signed (n : ℕ) : ℤ := if n < 2 ^ 63 then n else n - 2 ^ 64

/-- A turn of the loop of `write` in which `writev` takes `written` bytes. -/
def writeTurn (buffer : BufferViewList) (written : ℕ) : Except String BufferViewList :=
  if written = 0 ∧ buffer.size ≠ 0 then .error "write returned 0 given non-empty input buffer"
  else if signed buffer.size < written then .error "write wrote more than length of input buffer"
  else buffer.removePrefix written

section Write
variable {buffer : BufferViewList}

theorem size_of_fits (h : buffer.bytes.length ≤ stringMaxSize) :
    buffer.size = buffer.bytes.length := by
  rw [BufferViewList.size_eq, mod_of_le_stringMaxSize h]

theorem writeTurn_of_le {written : ℕ} (hfits : buffer.bytes.length ≤ stringMaxSize)
    (hpos : 0 < written) (hle : written ≤ buffer.bytes.length) :
    ∃ rest, writeTurn buffer written = .ok rest ∧ rest.bytes = buffer.bytes.drop written := by
  have hsize := size_of_fits hfits
  have hsigned : ¬ signed buffer.size < written := by
    simp only [stringMaxSize] at hfits
    rw [signed, if_pos (by omega)]
    omega
  rw [writeTurn, if_neg (by omega), if_neg hsigned]
  exact viewPieces.remove_of_le hle

end Write
end FileDescriptor
end Sponge
