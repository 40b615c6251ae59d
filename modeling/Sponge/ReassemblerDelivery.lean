import Sponge.ReassemblerInvariant

/-!
# One call of `push_substring`, and reads of its output

The substring is a piece of the stream `S`, or empty. Its bytes inside the
window become held, the end-of-stream flag is latched when the substring's end
lies inside the window, and the output ends once nothing is pending.
-/
namespace Sponge
open MachineWords SlidingWindow
namespace StreamReassembler

/-- The right edge of the window as a stream index. -/
def windowEnd (r : StreamReassembler) : ℕ := r.capacity + r.output.bytesRead

section LatchEnd
variable {S taken : List Byte} {r : StreamReassembler}

theorem Filled.receivedEOF_latchEOF (h : Filled S taken r) (hS : S.length < 2 ^ 32)
    {data : List Byte} {index : ℕ} (hindex : index + data.length < 2 ^ 64) (eof : Bool) :
    (r.latchEOF data index eof).receivedEOF =
      (r.receivedEOF || eof && decide (index + data.length ≤ r.windowEnd)) := by
  rw [StreamReassembler.latchEOF]
  rw [h.firstUnacceptable_eq hS, addMod_of_lt hindex, windowEnd]
  by_cases hle : index + data.length ≤ r.capacity + r.output.bytesRead
  · cases eof <;> simp [hle]
  · have hmin : ¬ min (r.capacity + r.output.bytesRead) (index + data.length) =
        index + data.length := by omega
    cases eof <;> simp [hmin, hle]

end LatchEnd

section Push
variable {S taken data : List Byte} {r : StreamReassembler} {index : ℕ}

theorem Filled.covers_iff (h : Filled S taken r) (hS : S.length < 2 ^ 32)
    (hdata : data = [] ∨ IsSlice S index data) (p : ℕ) :
    r.Covers data index p ↔ index ≤ r.output.bytesWritten + p ∧
      r.output.bytesWritten + p < index + data.length ∧ r.output.bytesWritten + p < r.windowEnd := by
  have hw := h.bytesWritten_eq
  have hr := h.bytesRead_eq
  have hend := (h.sized hS).end_le
  rw [Covers, room, windowEnd]
  rcases hdata with rfl | hdata
  · have hle : addMod 64 index 0 ≤ index := Nat.mod_le _ _
    simp only [List.length_nil]
    omega
  · have hbound := hdata.end_le
    rw [addMod_of_lt (by omega)]
    omega

theorem Filled.ahead_created (h : Filled S taken r) (hS : S.length < 2 ^ 32)
    (hdata : data = [] ∨ IsSlice S index data) (eof : Bool) :
    (r.created data index eof).Ahead S r.output.bytesWritten := by
  refine ((h.sized hS).created data index eof).ahead h.flag_byte fun p hp => ?_
  obtain ⟨hlo, hhi, -⟩ := (h.covers_iff hS hdata p).mp hp
  rcases hdata with rfl | hdata
  · rw [List.length_nil] at hhi
    omega
  · have hbound := hdata.end_le
    have hbyte := hdata.getElem? (k := r.output.bytesWritten + p - index) (by omega)
    rw [Nat.add_sub_cancel' hlo] at hbyte
    exact ⟨by omega, hbyte⟩

/-- What one call of `push_substring` does to a reassembler that represents `S`. -/
structure Pushed (S taken : List Byte) (r : StreamReassembler) (data : List Byte) (index : ℕ)
    (eof : Bool) (r' : StreamReassembler) : Prop where
  represents : Represents S taken r'
  capacity_eq : r'.capacity = r.capacity
  bytesRead_eq : r'.output.bytesRead = r.output.bytesRead
  bytesWritten_le : r.output.bytesWritten ≤ r'.output.bytesWritten
  error_eq : r'.output.error = r.output.error
  holds_iff : ∀ k, r'.Holds k ↔
    r.Holds k ∨ index ≤ k ∧ k < index + data.length ∧ k < r.windowEnd
  receivedEOF_eq : r'.receivedEOF = (r.latchEOF data index eof).receivedEOF
  ended_eq : r'.output.isInputEnded =
    (r.output.isInputEnded || r'.receivedEOF && r'.numUnassembledBytes == 0)

theorem Filled.holds_created (h : Filled S taken r) (hS : S.length < 2 ^ 32)
    (hdata : data = [] ∨ IsSlice S index data) (eof : Bool) (k : ℕ) :
    (r.created data index eof).HeldFrom r.output.bytesWritten k ↔
      r.Holds k ∨ index ≤ k ∧ k < index + data.length ∧ k < r.windowEnd := by
  rw [((h.sized hS).created data index eof).heldFrom_iff, h.covers_iff hS hdata]
  by_cases hk : k < r.output.bytesWritten
  · exact iff_of_true (Or.inl (Or.inl hk)) (Or.inl (Or.inl hk))
  · rw [Nat.add_sub_cancel' (by omega)]
    exact or_congr Iff.rfl (and_iff_right (by omega))

theorem Filled.pushSubstring (h : Filled S taken r) (hS : S.length < 2 ^ 32)
    (hdata : data = [] ∨ IsSlice S index data) (eof : Bool) :
    Pushed S taken r data index eof (r.pushSubstring data index eof) := by
  have hc := (h.sized hS).created data index eof
  have hahead := h.ahead_created hS hdata eof
  have hbound := hahead.assembled_le hc.sized h.bytesWritten_le
  have hholds := h.holds_created hS hdata eof
  have hw := h.bytesWritten_eq
  rw [pushSubstring_eq]
  generalize r.created data index eof = c at hc hahead hbound hholds ⊢
  have hout := hc.output_eq
  have hs := hc.sized.shifted (by rw [hout]; omega)
  have hbw : c.writeSegment.endOutput.output.bytesWritten =
      r.output.bytesWritten + c.assembled := by
    rw [hs.bytesWritten_eq, hout, addMod_of_lt (by omega)]
  have hend : c.writeSegment.endOutput.output.endOfBuffer =
      r.output.endOfBuffer + c.assembled := by rw [hs.endOfBuffer_eq, hout]
  have hcont := hs.contents_eq
  rw [hout, hahead.take_assembled hc.sized] at hcont
  refine ⟨⟨⟨hs.sized.output_wf, hs.sized.output_capacity, hs.sized.length_buffer,
    hs.sized.length_written, ?_, ?_, ?_, hs.sized.flag_room, ?_, hs.sized.num_eq⟩, hs.head_clear⟩,
    hs.capacity_eq.trans hc.capacity_eq, ?_, ?_, ?_, ?_, hs.receivedEOF_eq.trans hc.receivedEOF_eq, ?_⟩
  · rw [hcont, ← List.append_assoc]
    apply append_isPrefix_of_isSlice h.delivered
    rw [List.length_append, h.output_wf.length_contents, ← hw]
    exact ⟨h.bytesWritten_le, List.take_prefix _ _⟩
  · rw [hs.bytesRead_eq, hout]
    exact h.bytesRead_eq
  · rw [hbw, hend, hw, Nat.add_assoc]
  · rw [hbw]
    exact hs.ahead hc.sized hahead
  · rw [hs.bytesRead_eq, hout]
  · rw [hbw]
    exact Nat.le_add_right _ _
  · rw [hs.error_eq, hout]
  · intro k
    rw [← hholds k, ← hs.heldFrom_iff hc.sized, ← hbw]
    rfl
  · rw [hs.ended_eq, hout]

end Push

section Take
variable {S taken : List Byte} {r : StreamReassembler} {len : ℕ}

theorem Represents.popOutput (h : Represents S taken r) (hS : S.length < 2 ^ 32)
    (hlen : len ≤ r.output.endOfBuffer) :
    Represents S (taken ++ r.output.contents.take len) (r.popOutput len) := by
  have hs := (h.sized hS).popOutput hlen
  have hcont := h.output_wf.contents_popOutput hlen
  have hend := h.output_wf.endOfBuffer_popOutput hlen
  have hw := h.bytesWritten_eq
  have hr := h.bytesRead_eq
  have hle := h.bytesWritten_le
  have htake : (r.output.contents.take len).length = len := by
    rw [List.length_take, h.output_wf.length_contents]
    omega
  refine ⟨⟨hs.output_wf, h.output_capacity, h.length_buffer, h.length_written,
    ?_, ?_, ?_, hs.flag_room, h.flag_byte, h.num_eq⟩, h.head_clear⟩
  · change taken ++ r.output.contents.take len ++ (r.output.popOutput len).contents <+: S
    rw [hcont, List.append_assoc, List.take_append_drop]
    exact h.delivered
  · change addMod 32 r.output.bytesRead len = _
    rw [addMod_of_lt (by omega), List.length_append, htake, hr]
  · change r.output.bytesWritten = _ + (r.output.popOutput len).endOfBuffer
    rw [hend, List.length_append, htake]
    omega

theorem read_snd (r : StreamReassembler) (len : ℕ) :
    (r.read len).2 = r.popOutput (r.output.readLen len) := rfl

theorem Represents.read_fst (h : Represents S taken r) :
    (r.read len).1 = r.output.contents.take (r.output.readLen len) := by
  have hlen := h.output_wf.length_contents
  change (r.output.read len).1 = _
  rw [ByteStream.read_fst, ByteStream.readLen_eq]
  by_cases hc : len ≤ r.output.endOfBuffer
  · rw [Nat.min_eq_left hc]
  · rw [Nat.min_eq_right (by omega), List.take_of_length_le (by omega),
      List.take_of_length_le (by omega)]

theorem Represents.read (h : Represents S taken r) (hS : S.length < 2 ^ 32) :
    Represents S (taken ++ (r.read len).1) (r.read len).2 := by
  rw [h.read_fst, read_snd]
  exact h.popOutput hS (r.output.readLen_le len)

end Take

/-- Everything ever written to the output, of which `taken` has been read. -/
theorem Represents.written_eq {S taken : List Byte} {r : StreamReassembler}
    (h : Represents S taken r) : taken ++ r.output.contents = S.take r.output.bytesWritten := by
  have hlen : (taken ++ r.output.contents).length = r.output.bytesWritten := by
    rw [List.length_append, h.output_wf.length_contents, h.bytesWritten_eq]
  rw [← hlen]
  exact List.prefix_iff_eq_take.mp h.delivered

/-- The byte right behind the written ones is never held. -/
theorem Represents.not_holds_bytesWritten {S taken : List Byte} {r : StreamReassembler}
    (h : Represents S taken r) : ¬ r.Holds r.output.bytesWritten :=
  not_heldFrom_self h.head_clear _

/-- With nothing pending, what is held is what is written. -/
theorem Represents.holds_of_num_eq_zero {S taken : List Byte} {r : StreamReassembler}
    (h : Represents S taken r) (hnum : r.numUnassembledBytes = 0) (k : ℕ) :
    r.Holds k ↔ k < r.output.bytesWritten := by
  refine ⟨?_, Or.inl⟩
  rintro (hk | ⟨-, hk⟩)
  · exact hk
  · have hcount := h.num_eq
    rw [hnum] at hcount
    exact absurd (List.mem_of_getElem? hk) (List.count_eq_zero.mp hcount.symm)

end StreamReassembler
end Sponge
