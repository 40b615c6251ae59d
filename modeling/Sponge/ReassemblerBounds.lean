import Sponge.ReassemblerRuns

/-!
# The representation of the reassembler

Substrings of any content, index and end mark are pushed, between reads that stay within the
buffered bytes. The window keeps its shape, its count is exact, and no access of a push leaves
the strings: the pushes are run a second time with every position checked.
-/
namespace Sponge
open MachineWords SlidingWindow
namespace StreamReassembler

/-- Reads and pops of what is there; anything may be pushed. -/
def ReadsInRange (r : StreamReassembler) : Op → Prop
  | .push _ _ _ => True
  | .read len => len ≤ r.output.bufferSize
  | .pop len => len ≤ r.output.bufferSize

def anyPushes : Machine StreamReassembler Op := ⟨step, ReadsInRange⟩

instance (r : StreamReassembler) : ∀ op, Decidable (anyPushes.enabled r op)
  | .push _ _ _ => .isTrue trivial
  | .read len => inferInstanceAs (Decidable (len ≤ r.output.bufferSize))
  | .pop len => inferInstanceAs (Decidable (len ≤ r.output.bufferSize))

section Checked

/-- The loop body of `create_segment` with its accesses checked: `none` is a position outside one
of the strings. The positions are differences of 64-bit words. -/
def checkedStep (firstUnassembled index : ℕ) (data : List Byte) (r : StreamReassembler)
    (it : ℕ) : Option StreamReassembler := do
  let p := subMod 64 it firstUnassembled
  let flag ← r.written[p]?
  if flag then return r
  let byte ← data[subMod 64 it index]?
  let _ ← r.buffer[p]?
  return { r with
    buffer := r.buffer.set p byte
    written := r.written.set p true
    numUnassembledBytes := addMod 64 r.numUnassembledBytes 1 }

def checkedLoop (firstUnassembled index : ℕ) (data : List Byte) :
    StreamReassembler → ℕ → ℕ → Option StreamReassembler
  | r, _, 0 => some r
  | r, it, n + 1 => do
    let r ← checkedStep firstUnassembled index data r it
    checkedLoop firstUnassembled index data r (it + 1) n

def checkedCreateSegment (r : StreamReassembler) (firstUnassembled index lIndex rIndex : ℕ)
    (data : List Byte) : Option StreamReassembler :=
  if rIndex ≤ lIndex then some r
  else checkedLoop firstUnassembled index data r lIndex (rIndex - lIndex)

/-- The counting loop of `write_segment` from position `it` on. -/
def checkedCount (written : List Bool) : ℕ → ℕ → Option ℕ
  | _, 0 => some 0
  | it, n + 1 => do
    let flag ← written[it]?
    if flag then return (← checkedCount written (it + 1) n) + 1 else return 0

def checkedWriteSegment (r : StreamReassembler) : Option StreamReassembler := do
  let n ← checkedCount r.written 0 r.capacity
  return { r with
    output := r.output.write (r.buffer.take n)
    buffer := slide n space r.buffer
    written := slide n false r.written
    numUnassembledBytes := subMod 64 r.numUnassembledBytes n }

def checkedPush (r : StreamReassembler) (data : List Byte) (index : ℕ) (eof : Bool) :
    Option StreamReassembler := do
  let firstUnassembled := r.output.bytesWritten
  let lIndex := max firstUnassembled index
  let rIndex := min r.firstUnacceptable (addMod 64 index data.length)
  let c ← (r.latchEOF data index eof).checkedCreateSegment firstUnassembled index lIndex rIndex data
  let w ← c.checkedWriteSegment
  return w.endOutput

variable {r : StreamReassembler} {data : List Byte} {index it : ℕ}

theorem checkedStep_eq (h : r.Sized) (hfirst : r.output.bytesWritten ≤ it)
    (hroom : it < r.output.bytesWritten + r.room) (hindex : index ≤ it)
    (hdata : it - index < data.length) :
    checkedStep r.output.bytesWritten index data r it =
      some (createStep r.output.bytesWritten index data r it) := by
  have hcap := h.capacity_le
  have hword := h.bytesWritten_lt
  have hend := h.end_le
  rw [room] at hroom
  simp only [stringMaxSize] at hcap
  have hp : subMod 64 it r.output.bytesWritten = it - r.output.bytesWritten :=
    subMod_of_le hfirst (by omega)
  have hi : subMod 64 it index = it - index := subMod_of_le hindex (by omega)
  have hwritten : it - r.output.bytesWritten < r.written.length := by
    rw [h.length_written]
    omega
  have hbuffer : it - r.output.bytesWritten < r.buffer.length := by
    rw [h.length_buffer]
    omega
  rw [checkedStep, createStep, hp, hi, List.getElem?_eq_getElem hwritten,
    List.getElem?_eq_getElem hbuffer, List.getElem?_eq_getElem hdata, List.getD_eq_getElem?_getD,
    List.getElem?_eq_getElem hdata]
  cases r.written[it - r.output.bytesWritten] with
  | true => rfl
  | false => rfl

theorem checkedLoop_eq (h : r.Sized) (n : ℕ) (hfirst : r.output.bytesWritten ≤ it)
    (hroom : it + n ≤ r.output.bytesWritten + r.room) (hindex : index ≤ it)
    (hdata : it + n ≤ index + data.length) :
    checkedLoop r.output.bytesWritten index data r it n =
      some (createLoop r.output.bytesWritten index data r it n) := by
  induction n generalizing r it with
  | zero => rfl
  | succ n ih =>
    have hstep := h.createStep index data hfirst (by omega)
    have hrest := ih hstep.sized (show _ ≤ it + 1 by rw [hstep.output_eq]; omega)
      (by rw [room, hstep.output_eq, hstep.capacity_eq, ← room]; omega) (by omega) (by omega)
    rw [hstep.output_eq] at hrest
    rw [checkedLoop, checkedStep_eq h hfirst (by omega) hindex (by omega), createLoop]
    exact hrest

theorem checkedCreateSegment_eq (h : r.Sized) (index : ℕ) (data : List Byte) :
    let lIndex := max r.output.bytesWritten index
    let rIndex := min r.firstUnacceptable (addMod 64 index data.length)
    r.checkedCreateSegment r.output.bytesWritten index lIndex rIndex data =
      some (r.createSegment r.output.bytesWritten index lIndex rIndex data) := by
  have hedge := h.firstUnacceptable_eq
  -- a substring that wraps past the last index ends in front of its own start
  have hwrap : addMod 64 index data.length ≤ index + data.length := Nat.mod_le _ _
  intro lIndex rIndex
  rw [checkedCreateSegment, createSegment]
  split
  · rfl
  · exact checkedLoop_eq h _ (Nat.le_max_left _ _) (by omega) (Nat.le_max_right _ _) (by omega)

theorem checkedCount_eq (written : List Bool) (it n : ℕ) (h : it + n ≤ written.length) :
    checkedCount written it n = some (leadingRun ((written.drop it).take n)) := by
  induction n generalizing it with
  | zero => rfl
  | succ n ih =>
    have hit : it < written.length := by omega
    rw [checkedCount, List.getElem?_eq_getElem hit, List.drop_eq_getElem_cons hit,
      List.take_succ_cons]
    cases written[it] with
    | true =>
      simp [ih (it + 1) (by omega), leadingRun]
    | false => simp [leadingRun]

theorem checkedWriteSegment_eq (h : r.Sized) :
    r.checkedWriteSegment = some r.writeSegment := by
  rw [checkedWriteSegment, checkedCount_eq r.written 0 r.capacity (by rw [h.length_written]; omega)]
  rfl

/-- No access of a push is out of bounds. -/
theorem checkedPush_eq (h : r.Sized) (data : List Byte) (index : ℕ) (eof : Bool) :
    r.checkedPush data index eof = some (r.pushSubstring data index eof) := by
  have hlatched := h.latchEOF data index eof
  rw [latchEOF_eq] at hlatched
  have hsegment : (r.latchEOF data index eof).checkedCreateSegment r.output.bytesWritten index
      (max r.output.bytesWritten index) (min r.firstUnacceptable (addMod 64 index data.length))
      data = some (r.created data index eof) := by
    rw [created]
    rw [latchEOF_eq]
    exact checkedCreateSegment_eq hlatched index data
  have hwrite := checkedWriteSegment_eq (h.created data index eof).sized
  simp only [checkedPush, hsegment, Option.bind_eq_bind, Option.bind_some, hwrite]
  rfl

end Checked

section Representation
variable {capacity : ℕ} {r r₀ : StreamReassembler} {ops : List Op}

/-- The shape of the window between two calls. -/
structure Representation (capacity : ℕ) (r : StreamReassembler) : Prop where
  length_buffer : r.buffer.length = capacity
  length_written : r.written.length = capacity
  num_eq : r.numUnassembledBytes = r.written.count true
  flag_lt : ∀ p, r.written[p]? = some true → p < r.output.remainingCapacity
  head_clear : r.written[0]? ≠ some true
  total_le : r.output.bufferSize + r.unassembledBytes ≤ capacity

theorem count_true_le {flags : List Bool} {n : ℕ} (h : ∀ p, flags[p]? = some true → p < n) :
    flags.count true ≤ n := by
  have hrest : (flags.drop n).count true = 0 := by
    rw [List.count_eq_zero]
    intro hmem
    obtain ⟨p, hp⟩ := List.mem_iff_getElem?.mp hmem
    rw [List.getElem?_drop] at hp
    have := h _ hp
    omega
  calc flags.count true
      = (flags.take n).count true + (flags.drop n).count true := by
        rw [← List.count_append, List.take_append_drop]
    _ ≤ (flags.take n).length + 0 := Nat.add_le_add List.count_le_length hrest.le
    _ ≤ n := List.length_take_le _ _

theorem Sized.representation (h : r.Sized) (hhead : r.written[0]? ≠ some true) :
    Representation r.capacity r := by
  have hflags : ∀ p, r.written[p]? = some true → p < r.room := by
    intro p hp
    have := h.flag_room p hp
    rw [room]
    omega
  refine ⟨h.length_buffer, h.length_written, h.num_eq, ?_, hhead, ?_⟩
  · rw [h.remainingCapacity_eq]
    exact hflags
  · have hcount := count_true_le hflags
    have hend := h.end_le
    rw [unassembledBytes, h.num_eq, ByteStream.bufferSize]
    rw [room] at hcount
    omega

/-- What every step keeps. -/
structure Kept (capacity : ℕ) (r : StreamReassembler) : Prop where
  sized : r.Sized
  head_clear : r.written[0]? ≠ some true
  capacity_eq : r.capacity = capacity

theorem Kept.step (hcap : capacity < 2 ^ 32) (h : Kept capacity r) {op : Op}
    (hop : r.ReadsInRange op) : Kept capacity (r.step op) := by
  cases op with
  | push data index eof =>
    have hcreated := h.sized.created data index eof
    have hfits := hcreated.sized.assembled_le
    have hcapacity := hcreated.capacity_eq.trans h.capacity_eq
    have hshifted := hcreated.sized.shifted (by omega)
    exact ⟨hshifted.sized, hshifted.head_clear, hshifted.capacity_eq.trans hcapacity⟩
  | read len =>
    have hpop := h.sized.popOutput (r.output.readLen_le len)
    exact ⟨hpop, h.head_clear, h.capacity_eq⟩
  | pop len => exact ⟨h.sized.popOutput hop, h.head_clear, h.capacity_eq⟩

theorem kept_run (hcap : capacity < 2 ^ 32) (hnew : new capacity = some r₀)
    (hops : anyPushes.Admits r₀ ops) : Kept capacity (anyPushes.run r₀ ops) := by
  refine anyPushes.invariant (I := Kept capacity) ?_ (fun r op h hop => h.step hcap hop) hops
  obtain ⟨hsized, hclear⟩ := sized_new hnew
  obtain ⟨output, -, rfl⟩ := new_eq_some hnew
  exact ⟨hsized, hclear 0, rfl⟩

/-- After every run the window has its shape, and whatever is pushed next, each position the push
uses lies inside its string and the output takes all it is given. -/
theorem representation_invariant (hcap : capacity < 2 ^ 32) (hnew : new capacity = some r₀)
    (hops : anyPushes.Admits r₀ ops) :
    let r := anyPushes.run r₀ ops
    Representation capacity r ∧
      ∀ data index eof,
        r.checkedPush data index eof = some (r.pushSubstring data index eof) ∧
        let c := r.created data index eof
        c.output.writeSize (c.buffer.take c.assembled) = (c.buffer.take c.assembled).length := by
  intro r
  have hkept : Kept capacity r := kept_run hcap hnew hops
  refine ⟨?_, fun data index eof => ⟨checkedPush_eq hkept.sized data index eof, ?_⟩⟩
  · rw [← hkept.capacity_eq]
    exact hkept.sized.representation hkept.head_clear
  · have hcreated := (hkept.sized.created data index eof).sized
    have hfits := hcreated.assembled_le
    have hbuffer := hcreated.length_buffer
    dsimp only
    rw [hcreated.writeSize_assembled, List.length_take]
    omega

theorem representation_invariant_inconsistent :
    ∃ r₀, new 3 = some r₀ ∧
      Representation 3 (anyPushes.run r₀
        [.push [7, 8] 1 true, .push [9, 9] (2 ^ 64 - 1) false, .push [1, 2] 0 false, .read 1,
          .push [5] 3 false]) := by
  have hnew : new 3 = some ⟨⟨3, [space, space, space], 0, 0, 0, false, false⟩, 3, false,
    [space, space, space], [false, false, false], 0⟩ := rfl
  exact ⟨_, hnew, (representation_invariant (by decide) hnew (by decide)).1⟩

end Representation
end StreamReassembler
end Sponge
