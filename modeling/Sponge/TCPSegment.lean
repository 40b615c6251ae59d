import Sponge.ByteStream
import Sponge.Slices
import Sponge.WrappingIntegers

/-! # TCP headers and segments -/
namespace Sponge

structure TCPHeader where
  sport : UInt16 := 0
  dport : UInt16 := 0
  seqno : WrappingInt32 := ⟨0⟩
  ackno : WrappingInt32 := ⟨0⟩
  doff : UInt8 := 5
  urg : Bool := false
  ack : Bool := false
  psh : Bool := false
  rst : Bool := false
  syn : Bool := false
  fin : Bool := false
  win : UInt16 := 0
  cksum : UInt16 := 0
  uptr : UInt16 := 0
  deriving DecidableEq

structure TCPSegment where
  header : TCPHeader := {}
  payload : List Byte := []
  deriving DecidableEq

namespace TCPSegment

def lengthInSequenceSpace (seg : TCPSegment) : ℕ :=
  seg.payload.length + (if seg.header.syn then 1 else 0) + (if seg.header.fin then 1 else 0)

/-- The segment belongs to the stream `S` with initial sequence number `isn`: its payload
stands in `S` at index `i` and its sequence number says so. The SYN takes number zero. -/
inductive Carries (isn : WrappingInt32) (S : List Byte) (seg : TCPSegment) : ℕ → Prop
  | syn (hsyn : seg.header.syn = true) (hseqno : seg.header.seqno = wrap 0 isn)
      (hdata : IsSlice S 0 seg.payload) : Carries isn S seg 0
  | data (i : ℕ) (hsyn : seg.header.syn = false) (hseqno : seg.header.seqno = wrap (1 + i) isn)
      (hdata : IsSlice S i seg.payload) : Carries isn S seg i

theorem Carries.isSlice {isn : WrappingInt32} {S : List Byte} {seg : TCPSegment} {i : ℕ}
    (h : Carries isn S seg i) : IsSlice S i seg.payload := by
  cases h with
  | syn _ _ hdata => exact hdata
  | data _ _ _ hdata => exact hdata

theorem Carries.append_right {isn : WrappingInt32} {S : List Byte} {seg : TCPSegment} {i : ℕ}
    (h : Carries isn S seg i) (more : List Byte) : Carries isn (S ++ more) seg i := by
  cases h with
  | syn hsyn hseqno hdata => exact .syn hsyn hseqno (hdata.append_right more)
  | data _ hsyn hseqno hdata => exact .data i hsyn hseqno (hdata.append_right more)

end TCPSegment
end Sponge
