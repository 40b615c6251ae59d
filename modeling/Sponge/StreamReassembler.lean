import Sponge.ByteStream
import Sponge.SlidingWindow

/-!
# The stream reassembler

Substrings of one stream arrive in any order. The reassembler keeps a window of
`capacity` bytes that starts at the first byte not yet written to its output,
with one flag a byte saying whether that byte has arrived. Indices are 64-bit.
-/
namespace Sponge
open MachineWords SlidingWindow

structure StreamReassembler where
  output : ByteStream
  capacity : ℕ
  receivedEOF : Bool
  buffer : List Byte
  written : List Bool
  numUnassembledBytes : ℕ
  deriving DecidableEq

namespace StreamReassembler

def new (capacity : ℕ) : Option StreamReassembler := do
  let output ← ByteStream.new capacity
  pure ⟨output, capacity, false, List.replicate capacity space, List.replicate capacity false, 0⟩

theorem new_eq_some {capacity : ℕ} {r : StreamReassembler} (h : new capacity = some r) :
    ∃ output, ByteStream.new capacity = some output ∧
      r = ⟨output, capacity, false, List.replicate capacity space, List.replicate capacity false,
        0⟩ := by
  simp only [new, Option.bind_eq_bind, Option.bind_eq_some_iff] at h
  obtain ⟨output, hout, hr⟩ := h
  exact ⟨output, hout, (Option.some.inj hr).symm⟩

def streamOut (r : StreamReassembler) : ByteStream := r.output

def unassembledBytes (r : StreamReassembler) : ℕ := r.numUnassembledBytes

def empty (r : StreamReassembler) : Bool := r.numUnassembledBytes == 0

/-- The loop body of `create_segment` for the stream index `it`. -/
def createStep (firstUnassembled index : ℕ) (data : List Byte) (r : StreamReassembler)
    (it : ℕ) : StreamReassembler :=
  if r.written[it - firstUnassembled]? = some false then { r with
    buffer := r.buffer.set (it - firstUnassembled) (data.getD (it - index) 0)
    written := r.written.set (it - firstUnassembled) true
    numUnassembledBytes := addMod 64 r.numUnassembledBytes 1 }
  else r

def createLoop (firstUnassembled index : ℕ) (data : List Byte) :
    StreamReassembler → ℕ → ℕ → StreamReassembler
  | r, _, 0 => r
  | r, it, n + 1 =>
    createLoop firstUnassembled index data (createStep firstUnassembled index data r it) (it + 1) n

def createSegment (r : StreamReassembler) (firstUnassembled index lIndex rIndex : ℕ)
    (data : List Byte) : StreamReassembler :=
  if rIndex ≤ lIndex then r
  else createLoop firstUnassembled index data r lIndex (rIndex - lIndex)

def writeSegment (r : StreamReassembler) : StreamReassembler :=
  let n := leadingRun (r.written.take r.capacity)
  { r with
    output := r.output.write (r.buffer.take n)
    buffer := slide n space r.buffer
    written := slide n false r.written
    numUnassembledBytes := subMod 64 r.numUnassembledBytes n }

/-- One past the last stream index that fits into the window. -/
def firstUnacceptable (r : StreamReassembler) : ℕ :=
  subMod 64 (addMod 64 r.output.bytesWritten r.capacity) r.output.bufferSize

def latchEOF (r : StreamReassembler) (data : List Byte) (index : ℕ) (eof : Bool) :
    StreamReassembler :=
  let rIndex := min r.firstUnacceptable (addMod 64 index data.length)
  if eof && rIndex == addMod 64 index data.length then { r with receivedEOF := true } else r

/-- The last statement of `push_substring`. -/
def endOutput (r : StreamReassembler) : StreamReassembler :=
  if r.receivedEOF && r.numUnassembledBytes == 0 then { r with output := r.output.endInput } else r

def pushSubstring (r : StreamReassembler) (data : List Byte) (index : ℕ) (eof : Bool) :
    StreamReassembler :=
  let firstUnassembled := r.output.bytesWritten
  let lIndex := max firstUnassembled index
  let rIndex := min r.firstUnacceptable (addMod 64 index data.length)
  (((r.latchEOF data index eof).createSegment firstUnassembled index lIndex rIndex
    data).writeSegment).endOutput

/-- Reads and pops through `stream_out()` act on the output stream only. -/
def read (r : StreamReassembler) (len : ℕ) : List Byte × StreamReassembler :=
  ((r.output.read len).1, { r with output := (r.output.read len).2 })

def popOutput (r : StreamReassembler) (len : ℕ) : StreamReassembler :=
  { r with output := r.output.popOutput len }

end StreamReassembler
end Sponge
