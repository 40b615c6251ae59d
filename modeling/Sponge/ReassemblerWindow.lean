import Sponge.StreamReassembler

/-!
# What `push_substring` does to the window

The substrings need not agree with each other or with any stream. A call stores the bytes that
fall on clear flags inside the window, hands the leading run of stored bytes to the output and
slides the window over it. Where the stored bytes are those of a stream, so are the handed ones.
-/
namespace Sponge
open MachineWords SlidingWindow
namespace StreamReassembler

structure Sized (r : StreamReassembler) : Prop where
  output_wf : r.output.Wf
  output_capacity : r.output.capacity = r.capacity
  length_buffer : r.buffer.length = r.capacity
  length_written : r.written.length = r.capacity
  bytesWritten_lt : r.output.bytesWritten < 2 ^ 32
  flag_room : ∀ p, r.written[p]? = some true → p + r.output.endOfBuffer < r.capacity
  num_eq : r.numUnassembledBytes = r.written.count true

/-- The part of the window that the output has room for. -/
def room (r : StreamReassembler) : ℕ := r.capacity - r.output.endOfBuffer

theorem sized_new {capacity : ℕ} {r : StreamReassembler} (h : new capacity = some r) :
    r.Sized ∧ ∀ p : ℕ, r.written[p]? ≠ some true := by
  obtain ⟨output, hout, rfl⟩ := new_eq_some h
  have hwf := ByteStream.wf_new hout
  obtain ⟨-, rfl⟩ := ByteStream.new_eq_some hout
  have hclear : ∀ p : ℕ, (List.replicate capacity false)[p]? ≠ some true := by
    intro p
    rw [List.getElem?_replicate]
    split <;> simp
  refine ⟨⟨hwf, rfl, by simp, by simp, by simp, fun p hp => absurd hp (hclear p), ?_⟩, hclear⟩
  simp [List.count_replicate]

namespace Sized
variable {r : StreamReassembler}

theorem end_le (h : r.Sized) : r.output.endOfBuffer ≤ r.capacity := by
  rw [← h.output_capacity]
  exact h.output_wf.end_le

theorem capacity_le (h : r.Sized) : r.capacity ≤ stringMaxSize := by
  rw [← h.output_capacity]
  exact h.output_wf.capacity_le

theorem num_le (h : r.Sized) : r.numUnassembledBytes ≤ r.capacity := by
  rw [h.num_eq, ← h.length_written]
  exact List.count_le_length

theorem remainingCapacity_eq (h : r.Sized) : r.output.remainingCapacity = r.room := by
  rw [h.output_wf.remainingCapacity_eq, h.output_capacity, room]

/-- The window ends where the output would be full. -/
theorem firstUnacceptable_eq (h : r.Sized) :
    r.firstUnacceptable = r.output.bytesWritten + r.room := by
  have hcap := h.capacity_le
  have hend := h.end_le
  have hw := h.bytesWritten_lt
  simp only [stringMaxSize] at hcap
  rw [firstUnacceptable, addMod_of_lt (by omega), ByteStream.bufferSize,
    subMod_of_le (by omega) (by omega), room]
  omega

theorem num_eq_zero_iff (h : r.Sized) :
    r.numUnassembledBytes = 0 ↔ ∀ p : ℕ, r.written[p]? ≠ some true := by
  rw [h.num_eq, List.count_eq_zero]
  constructor
  · intro hnot p hp
    exact hnot (List.mem_of_getElem? hp)
  · intro hclear hmem
    obtain ⟨p, hp⟩ := List.mem_iff_getElem?.mp hmem
    exact hclear p hp

end Sized

section Create
variable {r r₁ r₂ : StreamReassembler} {index it lo mid hi : ℕ} {data : List Byte}

/-- `r₁` is `r` with the bytes of the stream indices from `lo` up to `hi` put in where none was. -/
structure Stored (r : StreamReassembler) (index : ℕ) (data : List Byte) (lo hi : ℕ)
    (r₁ : StreamReassembler) : Prop where
  sized : r₁.Sized
  output_eq : r₁.output = r.output
  capacity_eq : r₁.capacity = r.capacity
  receivedEOF_eq : r₁.receivedEOF = r.receivedEOF
  flag_iff : ∀ p, r₁.written[p]? = some true ↔ r.written[p]? = some true ∨
    lo ≤ r.output.bytesWritten + p ∧ r.output.bytesWritten + p < hi
  old_byte : ∀ p : ℕ, r.written[p]? = some true → r₁.buffer[p]? = r.buffer[p]?
  new_byte : ∀ p : ℕ, r.written[p]? ≠ some true →
    lo ≤ r.output.bytesWritten + p → r.output.bytesWritten + p < hi →
    r₁.buffer[p]? = some (data.getD (r.output.bytesWritten + p - index) 0)

theorem Stored.refl (h : r.Sized) (index : ℕ) (data : List Byte) (hle : hi ≤ lo) :
    Stored r index data lo hi r :=
  ⟨h, rfl, rfl, rfl, fun _ => ⟨Or.inl, fun hp => hp.elim id fun _ => by omega⟩, fun _ _ => rfl,
    fun _ _ _ _ => by omega⟩

theorem Stored.trans (h₁ : Stored r index data lo mid r₁) (h₂ : Stored r₁ index data mid hi r₂)
    (hlo : lo ≤ mid) (hhi : mid ≤ hi) : Stored r index data lo hi r₂ where
  sized := h₂.sized
  output_eq := h₂.output_eq.trans h₁.output_eq
  capacity_eq := h₂.capacity_eq.trans h₁.capacity_eq
  receivedEOF_eq := h₂.receivedEOF_eq.trans h₁.receivedEOF_eq
  flag_iff := by
    intro p
    rw [h₂.flag_iff, h₁.flag_iff, h₁.output_eq, or_assoc]
    exact or_congr Iff.rfl (by omega)
  old_byte := by
    intro p hp
    rw [h₂.old_byte p ((h₁.flag_iff p).mpr (Or.inl hp)), h₁.old_byte p hp]
  new_byte := by
    intro p hp hplo hphi
    by_cases hmid : r.output.bytesWritten + p < mid
    · rw [h₂.old_byte p ((h₁.flag_iff p).mpr (Or.inr ⟨hplo, hmid⟩)), h₁.new_byte p hp hplo hmid]
    · have hclear : r₁.written[p]? ≠ some true := by
        rw [Ne, h₁.flag_iff]
        rintro (hold | hnew)
        · exact hp hold
        · omega
      have hnew := h₂.new_byte p hclear
      rw [h₁.output_eq] at hnew
      exact hnew (by omega) hphi

theorem flag_set_of_ne_false {flags : List Bool} {p : ℕ} (hp : p < flags.length)
    (h : flags[p]? ≠ some false) : flags[p]? = some true := by
  rw [List.getElem?_eq_getElem hp] at h ⊢
  simpa using h

theorem count_set_true {flags : List Bool} {p : ℕ} (h : flags[p]? = some false) :
    (flags.set p true).count true = flags.count true + 1 := by
  obtain ⟨hp, hold⟩ := List.getElem?_eq_some_iff.mp h
  rw [List.count_set hp, hold]
  simp

/-- One byte is put into the window. -/
theorem Sized.createStep (h : r.Sized) (index : ℕ) (data : List Byte)
    (hfirst : r.output.bytesWritten ≤ it) (hroom : it < r.output.bytesWritten + r.room) :
    Stored r index data it (it + 1) (createStep r.output.bytesWritten index data r it) := by
  have hpos : it - r.output.bytesWritten + r.output.endOfBuffer < r.capacity := by
    rw [room] at hroom
    omega
  have hit : ∀ p, it ≤ r.output.bytesWritten + p ∧ r.output.bytesWritten + p < it + 1 ↔
      it - r.output.bytesWritten = p := by omega
  have hlt : it - r.output.bytesWritten < r.written.length := by rw [h.length_written]; omega
  rw [StreamReassembler.createStep]
  split
  · next hclear =>
    have hflags : ∀ p, (r.written.set (it - r.output.bytesWritten) true)[p]? = some true ↔
        r.written[p]? = some true ∨ it - r.output.bytesWritten = p := by
      intro p
      rw [List.getElem?_set]
      split
      · next hp => simp [← hp, hlt]
      · next hp => simp [hp]
    have hnum := h.num_le
    have hmax := h.capacity_le
    simp only [stringMaxSize] at hmax
    refine ⟨⟨h.output_wf, h.output_capacity, ?_, ?_, h.bytesWritten_lt, ?_, ?_⟩, rfl, rfl, rfl,
      fun p => ?_, fun p hp => ?_, fun p hp hplo hphi => ?_⟩
    · rw [List.length_set]
      exact h.length_buffer
    · rw [List.length_set]
      exact h.length_written
    · intro p hp
      rcases (hflags p).mp hp with hold | rfl
      · exact h.flag_room p hold
      · exact hpos
    · change addMod 64 r.numUnassembledBytes 1 = (r.written.set _ true).count true
      rw [count_set_true hclear, addMod_of_lt (by omega), h.num_eq]
    · rw [hit]
      exact hflags p
    · refine List.getElem?_set_ne fun heq => ?_
      rw [heq, hp] at hclear
      cases hclear
    · have heq : it - r.output.bytesWritten = p := (hit p).mp ⟨hplo, hphi⟩
      have hbyte : r.output.bytesWritten + p = it := by omega
      rw [hbyte, ← heq, List.getElem?_set_self (by rw [h.length_buffer]; omega)]
  · next hset =>
    have hold := flag_set_of_ne_false hlt hset
    refine ⟨h, rfl, rfl, rfl, fun p => ?_, fun _ _ => rfl, fun p hp hplo hphi => ?_⟩
    · rw [hit]
      exact ⟨Or.inl, fun hp => hp.elim id fun heq => heq ▸ hold⟩
    · exact absurd ((hit p).mp ⟨hplo, hphi⟩ ▸ hold) hp

theorem Sized.createLoop (h : r.Sized) (index : ℕ) (data : List Byte) (it n : ℕ)
    (hfirst : r.output.bytesWritten ≤ it) (hroom : it + n ≤ r.output.bytesWritten + r.room) :
    Stored r index data it (it + n) (createLoop r.output.bytesWritten index data r it n) := by
  induction n generalizing r it with
  | zero => exact Stored.refl h index data (le_refl _)
  | succ n ih =>
    have hstep := h.createStep index data hfirst (by omega)
    have hrest := ih hstep.sized (it + 1) (by rw [hstep.output_eq]; omega)
      (by rw [room, hstep.output_eq, hstep.capacity_eq, ← room]; omega)
    rw [hstep.output_eq, Nat.add_assoc, Nat.add_comm 1] at hrest
    rw [StreamReassembler.createLoop]
    exact hstep.trans hrest (by omega) (by omega)

/-- `create_segment` stores what lies between the start and the end of the window. -/
theorem Sized.createSegment (h : r.Sized) (index hi : ℕ) (data : List Byte) :
    Stored r index data (max r.output.bytesWritten index) (min r.firstUnacceptable hi)
      (r.createSegment r.output.bytesWritten index (max r.output.bytesWritten index)
        (min r.firstUnacceptable hi) data) := by
  have hedge := h.firstUnacceptable_eq
  rw [StreamReassembler.createSegment]
  split
  · next hle => exact Stored.refl h index data hle
  · next hlt =>
    have hloop := h.createLoop index data (max r.output.bytesWritten index)
      (min r.firstUnacceptable hi - max r.output.bytesWritten index) (Nat.le_max_left _ _)
      (by omega)
    rwa [Nat.add_sub_cancel' (by omega)] at hloop

end Create

section Write
variable {r : StreamReassembler}

/-- The bytes in front of the first clear flag, which `write_segment` hands to the output. -/
def assembled (r : StreamReassembler) : ℕ := leadingRun (r.written.take r.capacity)

namespace Sized

theorem assembled_eq (h : r.Sized) : r.assembled = leadingRun r.written := by
  rw [assembled, ← h.length_written, List.take_length]

theorem flag_of_lt_assembled (h : r.Sized) {p : ℕ} (hp : p < r.assembled) :
    r.written[p]? = some true :=
  getElem?_of_lt_leadingRun (h.assembled_eq ▸ hp)

theorem flag_assembled (h : r.Sized) : r.written[r.assembled]? ≠ some true := by
  rw [h.assembled_eq]
  exact getElem?_leadingRun_ne _

theorem le_assembled (h : r.Sized) {n : ℕ} (hn : ∀ p < n, r.written[p]? = some true) :
    n ≤ r.assembled := by
  by_contra hlt
  exact h.flag_assembled (hn _ (by omega))

theorem assembled_le (h : r.Sized) : r.output.endOfBuffer + r.assembled ≤ r.capacity := by
  have hend := h.end_le
  rcases Nat.eq_zero_or_pos r.assembled with hz | hpos
  · omega
  · have hroom := h.flag_room _ (h.flag_of_lt_assembled (Nat.sub_lt hpos Nat.one_pos))
    omega

theorem writeSize_assembled (h : r.Sized) :
    r.output.writeSize (r.buffer.take r.assembled) = r.assembled := by
  have hbound := h.assembled_le
  have hbuf := h.length_buffer
  rw [h.output_wf.writeSize_eq, h.output_capacity, List.length_take, hbuf]
  omega

theorem written_writeSegment (h : r.Sized) (p : ℕ) :
    r.writeSegment.written[p]? = some true ↔ r.written[r.assembled + p]? = some true := by
  have hle : r.assembled ≤ r.written.length := by
    have := h.assembled_le
    rw [h.length_written]
    omega
  change (slide r.assembled false r.written)[p]? = some true ↔ _
  rw [slide_getElem? false hle]
  by_cases hp : r.assembled + p < r.written.length
  · rw [if_pos hp]
  · rw [if_neg hp, List.getElem?_eq_none (by omega)]
    split <;> simp

theorem buffer_writeSegment (h : r.Sized) {p : ℕ} (hp : r.assembled + p < r.capacity) :
    r.writeSegment.buffer[p]? = r.buffer[r.assembled + p]? := by
  change (slide r.assembled space r.buffer)[p]? = _
  rw [slide_getElem? space (by rw [h.length_buffer]; omega),
    if_pos (by rw [h.length_buffer]; exact hp)]

theorem num_writeSegment (h : r.Sized) :
    r.writeSegment.numUnassembledBytes = r.writeSegment.written.count true := by
  have hcount := count_slide_leadingRun r.written
  have hmax := h.capacity_le
  have hnum := h.num_le
  have hn := h.num_eq
  rw [← h.assembled_eq] at hcount
  simp only [stringMaxSize] at hmax
  change subMod 64 r.numUnassembledBytes r.assembled = (slide r.assembled false r.written).count true
  rw [subMod_of_le (by omega) (by omega)]
  omega

/-- With nothing to hand over, `write_segment` changes nothing. -/
theorem writeSegment_of_clear (h : r.Sized) (hclear : r.written[0]? ≠ some true) :
    r.writeSegment = r := by
  have hz : r.assembled = 0 := by
    by_contra hne
    exact hclear (h.flag_of_lt_assembled (Nat.pos_of_ne_zero hne))
  have hnum := h.num_le
  have hmax := h.capacity_le
  simp only [stringMaxSize] at hmax
  have hwrite : r.output.write [] = r.output := by
    have hw : addMod 32 r.output.bytesWritten 0 = r.output.bytesWritten :=
      addMod_zero_right h.bytesWritten_lt
    simp only [ByteStream.write, ByteStream.writeSize, List.length_nil, Nat.zero_min, List.take_nil,
      ByteStream.writeLoop, hw]
  have hrun : leadingRun (r.written.take r.capacity) = 0 := hz
  simp only [writeSegment, hrun, List.take_zero, hwrite, slide, List.drop_zero,
    List.replicate_zero, List.append_nil, subMod_zero_right (show r.numUnassembledBytes < 2 ^ 64 by omega)]

end Sized

/-- `r'` is `r` after `write_segment` and the statement behind it. -/
structure Shifted (r r' : StreamReassembler) : Prop where
  sized : r'.Sized
  head_clear : r'.written[0]? ≠ some true
  capacity_eq : r'.capacity = r.capacity
  bytesRead_eq : r'.output.bytesRead = r.output.bytesRead
  error_eq : r'.output.error = r.output.error
  bytesWritten_eq : r'.output.bytesWritten = addMod 32 r.output.bytesWritten r.assembled
  endOfBuffer_eq : r'.output.endOfBuffer = r.output.endOfBuffer + r.assembled
  contents_eq : r'.output.contents = r.output.contents ++ r.buffer.take r.assembled
  flag_iff : ∀ p, r'.written[p]? = some true ↔ r.written[r.assembled + p]? = some true
  byte_eq : ∀ p, r.assembled + p < r.capacity → r'.buffer[p]? = r.buffer[r.assembled + p]?
  receivedEOF_eq : r'.receivedEOF = r.receivedEOF
  ended_eq : r'.output.isInputEnded =
    (r.output.isInputEnded || r'.receivedEOF && r'.numUnassembledBytes == 0)

theorem endOutput_eq (r : StreamReassembler) :
    r.endOutput = { r with output := { r.output with
      isInputEnded := r.output.isInputEnded || r.receivedEOF && r.numUnassembledBytes == 0 } } := by
  rw [endOutput]
  by_cases hc : (r.receivedEOF && r.numUnassembledBytes == 0) = true
  · simp [hc, ByteStream.endInput]
  · simp [hc]

/-- `_output.write` accepts all bytes it is given. -/
theorem Sized.output_writeSegment (h : r.Sized)
    (hword : r.output.endOfBuffer + r.assembled < 2 ^ 32) :
    r.writeSegment.output = { r.output with
      buffer := r.writeSegment.output.buffer
      endOfBuffer := r.output.endOfBuffer + r.assembled
      bytesWritten := addMod 32 r.output.bytesWritten r.assembled } ∧
    r.writeSegment.output.contents = r.output.contents ++ r.buffer.take r.assembled := by
  have hsize := h.writeSize_assembled
  have hword' : r.output.endOfBuffer + r.output.writeSize (r.buffer.take r.assembled) < 2 ^ 32 := by
    rw [hsize]
    exact hword
  have hout : r.writeSegment.output = r.output.write (r.buffer.take r.assembled) := rfl
  have heq := r.output.write_frame (r.buffer.take r.assembled)
  have hcont := h.output_wf.contents_write hword'
  rw [h.output_wf.endOfBuffer_write hword', hsize] at heq
  rw [hsize, List.take_take, Nat.min_self] at hcont
  rw [hout]
  exact ⟨heq, hcont⟩

/-- The end marker after `write_segment`, wrapped or not. -/
theorem Sized.endOfBuffer_writeSegment (h : r.Sized) :
    r.writeSegment.output.endOfBuffer = addMod 32 r.output.endOfBuffer r.assembled := by
  change (r.output.write (r.buffer.take r.assembled)).endOfBuffer = _
  rw [h.output_wf.endOfBuffer_write_eq, h.writeSize_assembled]

theorem Sized.endOutput (h : r.Sized) : r.endOutput.Sized := by
  have hwf := h.output_wf
  rw [endOutput_eq]
  exact ⟨⟨hwf.length_buffer, hwf.end_le, hwf.end_lt, hwf.capacity_le⟩, h.output_capacity,
    h.length_buffer, h.length_written, h.bytesWritten_lt, h.flag_room, h.num_eq⟩

theorem Sized.writeSegment (h : r.Sized) : r.writeSegment.endOutput.Sized := by
  have hframe : r.writeSegment.output = _ := r.output.write_frame (r.buffer.take r.assembled)
  have hbound := h.assembled_le
  refine Sized.endOutput ⟨h.output_wf.write, ?_, ?_, ?_, ?_, ?_, h.num_writeSegment⟩
  · rw [hframe]
    exact h.output_capacity
  · change (slide r.assembled space r.buffer).length = r.capacity
    rw [length_slide space (by rw [h.length_buffer]; omega), h.length_buffer]
  · change (slide r.assembled false r.written).length = r.capacity
    rw [length_slide false (by rw [h.length_written]; omega), h.length_written]
  · rw [hframe]
    exact addMod_lt 32 _ _
  · intro p hp
    have hroom := h.flag_room _ ((h.written_writeSegment p).mp hp)
    have hend : addMod 32 r.output.endOfBuffer r.assembled ≤ r.output.endOfBuffer + r.assembled :=
      Nat.mod_le _ _
    change p + r.writeSegment.output.endOfBuffer < r.capacity
    rw [h.endOfBuffer_writeSegment]
    omega

theorem Sized.shifted (h : r.Sized) (hword : r.output.endOfBuffer + r.assembled < 2 ^ 32) :
    Shifted r r.writeSegment.endOutput := by
  obtain ⟨hout, hcont⟩ := h.output_writeSegment hword
  have hsized := h.writeSegment
  have hflags := h.written_writeSegment
  have hbytes : ∀ p, r.assembled + p < r.capacity →
      r.writeSegment.buffer[p]? = r.buffer[r.assembled + p]? := fun p => h.buffer_writeSegment
  have hcapacity : r.writeSegment.capacity = r.capacity := rfl
  have heof : r.writeSegment.receivedEOF = r.receivedEOF := rfl
  rw [endOutput_eq] at hsized ⊢
  generalize r.writeSegment = w at *
  refine ⟨hsized, ?_, hcapacity, ?_, ?_, ?_, ?_, hcont, hflags, hbytes, heof, ?_⟩
  · intro hhead
    exact h.flag_assembled ((hflags 0).mp hhead)
  · rw [hout]
  · rw [hout]
  · rw [hout]
  · rw [hout]
  · rw [hout]

end Write

section Push
variable {r : StreamReassembler} {data : List Byte} {index : ℕ} {eof : Bool}

theorem latchEOF_eq (r : StreamReassembler) (data : List Byte) (index : ℕ) (eof : Bool) :
    r.latchEOF data index eof =
      { r with receivedEOF := (r.latchEOF data index eof).receivedEOF } := by
  simp only [latchEOF]
  split <;> rfl

theorem latchEOF_eq_self (h : eof = true → r.receivedEOF = true ∨
    r.firstUnacceptable < addMod 64 index data.length) : r.latchEOF data index eof = r := by
  simp only [latchEOF]
  split
  · next hlatch =>
    simp only [Bool.and_eq_true, beq_iff_eq] at hlatch
    rcases h hlatch.1 with hrec | hlt
    · rw [← hrec]
    · omega
  · rfl

theorem Sized.latchEOF (h : r.Sized) (data : List Byte) (index : ℕ) (eof : Bool) :
    (r.latchEOF data index eof).Sized := by
  rw [latchEOF_eq]
  exact ⟨h.output_wf, h.output_capacity, h.length_buffer, h.length_written, h.bytesWritten_lt,
    h.flag_room, h.num_eq⟩

/-- The state in which `push_substring` calls `write_segment`. -/
def created (r : StreamReassembler) (data : List Byte) (index : ℕ) (eof : Bool) :
    StreamReassembler :=
  (r.latchEOF data index eof).createSegment r.output.bytesWritten index
    (max r.output.bytesWritten index) (min r.firstUnacceptable (addMod 64 index data.length)) data

theorem pushSubstring_eq (r : StreamReassembler) (data : List Byte) (index : ℕ) (eof : Bool) :
    r.pushSubstring data index eof = (r.created data index eof).writeSegment.endOutput := rfl

/-- The substring has a byte for the window position `p`. -/
def Covers (r : StreamReassembler) (data : List Byte) (index p : ℕ) : Prop :=
  index ≤ r.output.bytesWritten + p ∧
    r.output.bytesWritten + p < addMod 64 index data.length ∧ p < r.room

/-- What `create_segment` leaves, read off the window positions. -/
structure Created (r : StreamReassembler) (data : List Byte) (index : ℕ) (eof : Bool)
    (c : StreamReassembler) : Prop where
  sized : c.Sized
  output_eq : c.output = r.output
  capacity_eq : c.capacity = r.capacity
  receivedEOF_eq : c.receivedEOF = (r.latchEOF data index eof).receivedEOF
  flag_iff : ∀ p, c.written[p]? = some true ↔ r.written[p]? = some true ∨ r.Covers data index p
  old_byte : ∀ p : ℕ, r.written[p]? = some true → c.buffer[p]? = r.buffer[p]?
  new_byte : ∀ p : ℕ, r.written[p]? ≠ some true → r.Covers data index p →
    c.buffer[p]? = data[r.output.bytesWritten + p - index]?

theorem Sized.created (h : r.Sized) (data : List Byte) (index : ℕ) (eof : Bool) :
    Created r data index eof (r.created data index eof) := by
  have hcover : ∀ p, max r.output.bytesWritten index ≤ r.output.bytesWritten + p ∧
      r.output.bytesWritten + p < min r.firstUnacceptable (addMod 64 index data.length) ↔
      r.Covers data index p := by
    intro p
    rw [h.firstUnacceptable_eq, Covers]
    omega
  have hlatched := h.latchEOF data index eof
  rw [latchEOF_eq] at hlatched
  have hstored := hlatched.createSegment index (addMod 64 index data.length) data
  rw [StreamReassembler.created]
  rw [latchEOF_eq]
  refine ⟨hstored.sized, hstored.output_eq, hstored.capacity_eq, hstored.receivedEOF_eq,
    fun p => (hstored.flag_iff p).trans (or_congr Iff.rfl (hcover p)), hstored.old_byte,
    fun p hp hc => ?_⟩
  obtain ⟨hplo, hphi⟩ := (hcover p).mpr hc
  have hlen : addMod 64 index data.length ≤ index + data.length := Nat.mod_le _ _
  have hin : r.output.bytesWritten + p - index < data.length := by
    rw [Covers] at hc
    omega
  refine (hstored.new_byte p hp hplo hphi).trans ?_
  change some (data.getD (r.output.bytesWritten + p - index) 0) = _
  rw [List.getD_eq_getElem?_getD, List.getElem?_eq_getElem hin, Option.getD_some]

end Push

theorem Sized.popOutput {r : StreamReassembler} (h : r.Sized) {len : ℕ}
    (hlen : len ≤ r.output.endOfBuffer) : (r.popOutput len).Sized := by
  have hend : (r.popOutput len).output.endOfBuffer = r.output.endOfBuffer - len :=
    h.output_wf.endOfBuffer_popOutput hlen
  refine ⟨h.output_wf.popOutput hlen, h.output_capacity, h.length_buffer, h.length_written,
    h.bytesWritten_lt, fun p hp => ?_, h.num_eq⟩
  have hroom := h.flag_room p hp
  change p + (r.popOutput len).output.endOfBuffer < r.capacity
  omega

/-- Byte `k` of a stream is among the first `n` or waits in a window that starts at `n`. -/
def HeldFrom (r : StreamReassembler) (n k : ℕ) : Prop :=
  k < n ∨ n ≤ k ∧ r.written[k - n]? = some true

section Held
variable {data : List Byte} {index : ℕ} {eof : Bool} {r c r' : StreamReassembler}

theorem not_heldFrom_self (h : r.written[0]? ≠ some true) (n : ℕ) : ¬ r.HeldFrom n n := by
  rintro (hk | ⟨-, hk⟩)
  · omega
  · rw [Nat.sub_self] at hk
    exact h hk

theorem Created.heldFrom_iff (hc : Created r data index eof c) (n k : ℕ) :
    c.HeldFrom n k ↔ r.HeldFrom n k ∨ n ≤ k ∧ r.Covers data index (k - n) := by
  rw [HeldFrom, HeldFrom, hc.flag_iff]
  by_cases hk : k < n
  · simp [hk]
  · simp [hk, Nat.le_of_not_lt hk]

/-- What is handed over stays held, one window further on. -/
theorem Shifted.heldFrom_iff (hs : Shifted c r') (hc : c.Sized) (n k : ℕ) :
    r'.HeldFrom (n + c.assembled) k ↔ c.HeldFrom n k := by
  rw [HeldFrom, HeldFrom, hs.flag_iff]
  constructor
  · rintro (hk | ⟨hk, hflag⟩)
    · by_cases hlt : k < n
      · exact Or.inl hlt
      · exact Or.inr ⟨by omega, hc.flag_of_lt_assembled (by omega)⟩
    · refine Or.inr ⟨by omega, ?_⟩
      rwa [show c.assembled + (k - (n + c.assembled)) = k - n by omega] at hflag
  · rintro (hk | ⟨hk, hflag⟩)
    · exact Or.inl (by omega)
    · by_cases hlt : k < n + c.assembled
      · exact Or.inl hlt
      · refine Or.inr ⟨by omega, ?_⟩
        rwa [show c.assembled + (k - (n + c.assembled)) = k - n by omega]

end Held

/-- The bytes waiting in the window are those of the stream `S` from index `n` on. -/
def Ahead (S : List Byte) (n : ℕ) (r : StreamReassembler) : Prop :=
  ∀ p, r.written[p]? = some true → n + p < S.length ∧ r.buffer[p]? = S[n + p]?

section Ahead
variable {S data : List Byte} {n index : ℕ} {eof : Bool} {r c r' : StreamReassembler}

theorem Created.ahead (hc : Created r data index eof c) (h : r.Ahead S n)
    (hdata : ∀ p, r.Covers data index p →
      n + p < S.length ∧ data[r.output.bytesWritten + p - index]? = S[n + p]?) :
    c.Ahead S n := by
  intro p hp
  by_cases hold : r.written[p]? = some true
  · rw [hc.old_byte p hold]
    exact h p hold
  · have hcover := ((hc.flag_iff p).mp hp).resolve_left hold
    rw [hc.new_byte p hold hcover]
    exact hdata p hcover

theorem Ahead.assembled_le (h : c.Ahead S n) (hc : c.Sized) (hn : n ≤ S.length) :
    n + c.assembled ≤ S.length := by
  rcases Nat.eq_zero_or_pos c.assembled with hz | hpos
  · omega
  · have hlast := (h _ (hc.flag_of_lt_assembled (Nat.sub_lt hpos Nat.one_pos))).1
    omega

/-- The bytes handed to the output are the next ones of the stream. -/
theorem Ahead.take_assembled (h : c.Ahead S n) (hc : c.Sized) :
    c.buffer.take c.assembled = (S.drop n).take c.assembled := by
  apply List.ext_getElem?
  intro p
  rw [List.getElem?_take, List.getElem?_take, List.getElem?_drop]
  by_cases hp : p < c.assembled
  · rw [if_pos hp, if_pos hp]
    exact (h p (hc.flag_of_lt_assembled hp)).2
  · rw [if_neg hp, if_neg hp]

theorem Shifted.ahead (hs : Shifted c r') (hc : c.Sized) (h : c.Ahead S n) :
    r'.Ahead S (n + c.assembled) := by
  intro p hp
  have hold := (hs.flag_iff p).mp hp
  have hroom := hc.flag_room _ hold
  rw [hs.byte_eq p (by omega), Nat.add_assoc]
  exact h _ hold

end Ahead
end StreamReassembler
end Sponge
