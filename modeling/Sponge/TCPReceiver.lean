import Sponge.StreamReassembler
import Sponge.TCPSegment
import Sponge.ReassemblerDelivery

/-!
# The TCP receiver

It turns the sequence numbers of arriving segments into stream indices, hands
the payloads to a reassembler and computes the acknowledgment number.
-/
namespace Sponge
open MachineWords

structure TCPReceiver where
  reassembler : StreamReassembler
  capacity : ℕ
  isn : WrappingInt32
  recievedSYN : Bool
  recievedFIN : Bool
  deriving DecidableEq

namespace TCPReceiver

def new (capacity : ℕ) : Option TCPReceiver := do
  let reassembler ← StreamReassembler.new capacity
  pure ⟨reassembler, capacity, ⟨0⟩, false, false⟩

theorem new_eq_some {capacity : ℕ} {v : TCPReceiver} (h : new capacity = some v) :
    ∃ reassembler, StreamReassembler.new capacity = some reassembler ∧
      v = ⟨reassembler, capacity, ⟨0⟩, false, false⟩ := by
  simp only [new, Option.bind_eq_bind, Option.bind_eq_some_iff] at h
  obtain ⟨reassembler, hr, hv⟩ := h
  exact ⟨reassembler, hr, (Option.some.inj hv).symm⟩

theorem exists_new {capacity : ℕ} (h : capacity ≤ stringMaxSize) : ∃ v, new capacity = some v := by
  simp [new, StreamReassembler.new, ByteStream.new, h]

def streamOut (v : TCPReceiver) : ByteStream := v.reassembler.streamOut

def unassembledBytes (v : TCPReceiver) : ℕ := v.reassembler.unassembledBytes

/-- The flags a segment leaves behind, before its payload is looked at. -/
def noteFlags (v : TCPReceiver) (header : TCPHeader) : TCPReceiver :=
  let v := if header.syn then { v with isn := header.seqno, recievedSYN := true } else v
  if header.fin then { v with recievedFIN := true } else v

def segmentReceived (v : TCPReceiver) (seg : TCPSegment) : TCPReceiver :=
  if !v.recievedSYN && !seg.header.syn then v
  else
    let v := v.noteFlags seg.header
    let absSeqno := unwrap seg.header.seqno v.isn v.streamOut.bytesWritten
    let index := subMod 64 absSeqno (if seg.header.syn then 0 else 1)
    { v with reassembler := v.reassembler.pushSubstring seg.payload index seg.header.fin }

/-- What a received FIN adds to the acknowledgment number. -/
def finBit (v : TCPReceiver) : ℕ :=
  if v.reassembler.empty then (if v.recievedFIN then 1 else 0) else 0

def ackno (v : TCPReceiver) : Option WrappingInt32 :=
  if v.recievedSYN then some (((v.isn.add v.streamOut.bytesWritten).add 1).add v.finBit) else none

def windowSize (v : TCPReceiver) : ℕ := v.streamOut.remainingCapacity

def read (v : TCPReceiver) (len : ℕ) : List Byte × TCPReceiver :=
  ((v.reassembler.read len).1, { v with reassembler := (v.reassembler.read len).2 })

def popOutput (v : TCPReceiver) (len : ℕ) : TCPReceiver :=
  { v with reassembler := v.reassembler.popOutput len }

/-- `stream_out().set_error()`. -/
def setError (v : TCPReceiver) : TCPReceiver :=
  { v with reassembler := { v.reassembler with output := v.reassembler.output.setError } }

theorem finBit_le (v : TCPReceiver) : v.finBit ≤ 1 := by
  rw [finBit]
  split
  · split <;> omega
  · omega

theorem ackno_eq {v : TCPReceiver} (hsyn : v.recievedSYN = true) :
    v.ackno = some (wrap (1 + v.reassembler.output.bytesWritten + v.finBit) v.isn) := by
  have hbase : wrap v.reassembler.output.bytesWritten v.isn =
      v.isn.add v.reassembler.output.bytesWritten := by
    have h := wrap_add 0 v.reassembler.output.bytesWritten v.isn
    rwa [Nat.zero_add, wrap_zero] at h
  rw [ackno, if_pos hsyn, Nat.add_comm 1, wrap_add, wrap_add, hbase]
  rfl

/-- A SYN has been received or stands on the segment; otherwise the segment is ignored. -/
def Listens (v : TCPReceiver) (seg : TCPSegment) : Prop :=
  v.recievedSYN = true ∨ seg.header.syn = true

instance (v : TCPReceiver) (seg : TCPSegment) : Decidable (v.Listens seg) :=
  inferInstanceAs (Decidable (_ ∨ _))

theorem segmentReceived_of_not_listens {v : TCPReceiver} {seg : TCPSegment}
    (h : ¬ v.Listens seg) : v.segmentReceived seg = v := by
  simp only [Listens, not_or, Bool.not_eq_true] at h
  simp [segmentReceived, h.1, h.2]

/-- The initial sequence number after the header's SYN, if it has one, is noted. -/
def origin (v : TCPReceiver) (header : TCPHeader) : WrappingInt32 :=
  if header.syn then header.seqno else v.isn

/-- The stream index at which a payload is pushed. -/
def streamIndex (v : TCPReceiver) (header : TCPHeader) : ℕ :=
  subMod 64 (unwrap header.seqno (v.origin header) v.streamOut.bytesWritten)
    (if header.syn then 0 else 1)

theorem origin_of_not_syn {v : TCPReceiver} {header : TCPHeader} (h : header.syn = false) :
    v.origin header = v.isn := by
  rw [origin, h]
  rfl

theorem origin_of_carries {isn : WrappingInt32} {S : List Byte} {v : TCPReceiver}
    {seg : TCPSegment} {i : ℕ} (hseg : seg.Carries isn S i) (hlisten : v.Listens seg)
    (hisn : v.recievedSYN = true → v.isn = isn) : v.origin seg.header = isn := by
  cases hseg with
  | syn hsyn hseqno _ => rw [origin, if_pos hsyn, hseqno, wrap_zero]
  | data _ hsyn _ _ =>
    rw [origin_of_not_syn hsyn]
    exact hisn (by simpa [Listens, hsyn] using hlisten)

theorem segmentReceived_eq {v : TCPReceiver} {seg : TCPSegment} (h : v.Listens seg) :
    v.segmentReceived seg = { v with
      isn := v.origin seg.header
      recievedSYN := true
      recievedFIN := v.recievedFIN || seg.header.fin
      reassembler := v.reassembler.pushSubstring seg.payload (v.streamIndex seg.header)
        seg.header.fin } := by
  have hgate : (!v.recievedSYN && !seg.header.syn) = false := by
    rcases h with h | h <;> simp [h]
  have hsyn : seg.header.syn = false → v.recievedSYN = true := by
    intro hs
    simpa [Listens, hs] using h
  rw [segmentReceived, hgate, streamIndex, origin, noteFlags]
  cases hs : seg.header.syn <;> cases hf : seg.header.fin <;> simp_all [streamOut]

/-- A segment of the stream is pushed at its own index. -/
theorem segmentReceived_of_carries {isn : WrappingInt32} {S : List Byte} {v : TCPReceiver}
    {seg : TCPSegment} {i : ℕ} (hseg : seg.Carries isn S i) (hlisten : v.Listens seg)
    (hisn : v.recievedSYN = true → v.isn = isn) (hS : S.length < 2 ^ 31 - 2)
    (hw : v.reassembler.output.bytesWritten ≤ S.length) :
    v.segmentReceived seg = { v with
      isn := isn
      recievedSYN := true
      recievedFIN := v.recievedFIN || seg.header.fin
      reassembler := v.reassembler.pushSubstring seg.payload i seg.header.fin } := by
  have hi := hseg.isSlice.start_le
  have hout : v.streamOut.bytesWritten = v.reassembler.output.bytesWritten := rfl
  have horigin := origin_of_carries hseg hlisten hisn
  have hindex : v.streamIndex seg.header = i := by
    rw [streamIndex, horigin, hout]
    cases hseg with
    | syn hsyn hseqno _ =>
      rw [hseqno, unwrap_wrap isn (by omega) (by omega) (by omega) (by omega), if_pos hsyn]
      exact subMod_of_le (le_refl 0) (by omega)
    | data _ hsyn hseqno _ =>
      rw [hseqno, unwrap_wrap isn (by omega) (by omega) (by omega) (by omega),
        if_neg (by simp [hsyn]), subMod_of_le (by omega) (by omega), Nat.add_sub_cancel_left]
  rw [segmentReceived_eq hlisten, horigin, hindex]

end TCPReceiver
end Sponge
