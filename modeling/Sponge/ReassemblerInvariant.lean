import Sponge.ReassemblerWindow
import Sponge.Slices

/-!
# What a reassembler knows about the stream it is fed from

`S` is the stream the substrings are cut from and `taken` the bytes already read
from the output. `Filled` says that everything written and everything waiting
agrees with `S`; `Represents` holds between calls, when in addition no assembled
byte is left in the window.
-/
namespace Sponge
namespace StreamReassembler

/-- Byte `k` of the stream has been written to the output or waits in the window. -/
def Holds (r : StreamReassembler) (k : ℕ) : Prop :=
  k < r.output.bytesWritten ∨
    r.output.bytesWritten ≤ k ∧ r.written[k - r.output.bytesWritten]? = some true

structure Filled (S taken : List Byte) (r : StreamReassembler) : Prop where
  output_wf : r.output.Wf
  output_capacity : r.output.capacity = r.capacity
  length_buffer : r.buffer.length = r.capacity
  length_written : r.written.length = r.capacity
  delivered : taken ++ r.output.contents <+: S
  bytesRead_eq : r.output.bytesRead = taken.length
  bytesWritten_eq : r.output.bytesWritten = taken.length + r.output.endOfBuffer
  flag_room : ∀ p, r.written[p]? = some true → p + r.output.endOfBuffer < r.capacity
  flag_byte : ∀ p, r.written[p]? = some true →
    r.output.bytesWritten + p < S.length ∧ r.buffer[p]? = S[r.output.bytesWritten + p]?
  num_eq : r.numUnassembledBytes = r.written.count true

structure Represents (S taken : List Byte) (r : StreamReassembler) : Prop
    extends Filled S taken r where
  head_clear : r.written[0]? ≠ some true

theorem represents_new {capacity : ℕ} {r : StreamReassembler} (h : new capacity = some r)
    (S : List Byte) : Represents S [] r := by
  obtain ⟨hs, hclear⟩ := sized_new h
  obtain ⟨output, hout, rfl⟩ := new_eq_some h
  obtain ⟨-, rfl⟩ := ByteStream.new_eq_some hout
  exact ⟨⟨hs.output_wf, rfl, hs.length_buffer, hs.length_written, by simp [ByteStream.contents], rfl,
    rfl, hs.flag_room, fun p hp => absurd hp (hclear p), hs.num_eq⟩, hclear 0⟩

namespace Filled
variable {S taken : List Byte} {r : StreamReassembler}

theorem bytesWritten_le (h : Filled S taken r) : r.output.bytesWritten ≤ S.length := by
  have hlen := h.delivered.length_le
  rw [List.length_append, h.output_wf.length_contents] at hlen
  rw [h.bytesWritten_eq]
  exact hlen

/-- Bytes appended to the stream later do not matter. -/
theorem append_right (h : Filled S taken r) (more : List Byte) : Filled (S ++ more) taken r where
  output_wf := h.output_wf
  output_capacity := h.output_capacity
  length_buffer := h.length_buffer
  length_written := h.length_written
  delivered := h.delivered.trans (List.prefix_append _ _)
  bytesRead_eq := h.bytesRead_eq
  bytesWritten_eq := h.bytesWritten_eq
  flag_room := h.flag_room
  flag_byte := by
    intro p hp
    obtain ⟨hlt, hbyte⟩ := h.flag_byte p hp
    refine ⟨by simp; omega, ?_⟩
    rw [hbyte, List.getElem?_append_left hlt]
  num_eq := h.num_eq

theorem sized (h : Filled S taken r) (hS : S.length < 2 ^ 32) : r.Sized :=
  ⟨h.output_wf, h.output_capacity, h.length_buffer, h.length_written,
    h.bytesWritten_le.trans_lt hS, h.flag_room, h.num_eq⟩

/-- The window ends `capacity` bytes behind what has been read. -/
theorem firstUnacceptable_eq (h : Filled S taken r) (hS : S.length < 2 ^ 32) :
    r.firstUnacceptable = r.capacity + r.output.bytesRead := by
  have hw := h.bytesWritten_eq
  have hr := h.bytesRead_eq
  have hend := (h.sized hS).end_le
  rw [(h.sized hS).firstUnacceptable_eq, room]
  omega

end Filled

theorem Represents.append_right {S taken : List Byte} {r : StreamReassembler}
    (h : Represents S taken r) (more : List Byte) : Represents (S ++ more) taken r :=
  ⟨h.toFilled.append_right more, h.head_clear⟩

theorem Represents.setError {S taken : List Byte} {r : StreamReassembler}
    (h : Represents S taken r) : Represents S taken { r with output := r.output.setError } :=
  ⟨⟨h.output_wf.setError, h.output_capacity, h.length_buffer, h.length_written, h.delivered,
    h.bytesRead_eq, h.bytesWritten_eq, h.flag_room, h.flag_byte, h.num_eq⟩, h.head_clear⟩

end StreamReassembler
end Sponge
