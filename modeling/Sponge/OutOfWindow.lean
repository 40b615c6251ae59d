import Sponge.ArbitrarySegments

/-!
# Segments outside of the receiver's window

Their payload is clipped away by the reassembler, with one exception, but a FIN is noted wherever
it lies: the flag of the receiver is set without any test, that of the reassembler unless the
segment ends behind the window. The exception is the byte right before the acknowledgment number
when an early FIN is counted in it.
-/
namespace Sponge
open MachineWords

namespace StreamReassembler
variable {n : ℕ} {r : StreamReassembler} {data : List Byte} {index : ℕ} {eof : Bool}

theorem endOutput_eq_self (h : r.receivedEOF = true → r.numUnassembledBytes = 0 →
    r.output.isInputEnded = true) : r.endOutput = r := by
  rw [endOutput]
  split
  · next hend =>
    simp only [Bool.and_eq_true, beq_iff_eq] at hend
    have hended := h hend.1 hend.2
    cases r
    simp only [ByteStream.endInput, ← hended]
  · rfl

/-- Of a substring without a byte for the window only the end is looked at. -/
theorem Settled.pushSubstring_of_not_covers (h : r.Settled n)
    (hnone : ∀ p, ¬ r.Covers data index p) (eof : Bool) :
    r.pushSubstring data index eof = (r.latchEOF data index eof).endOutput := by
  have hedge := h.firstUnacceptable_eq
  have hempty : min r.firstUnacceptable (addMod 64 index data.length) ≤
      max r.output.bytesWritten index := by
    by_contra hlt
    exact hnone (max r.output.bytesWritten index - r.output.bytesWritten)
      ⟨by omega, by omega, by omega⟩
  rw [pushSubstring_eq, created, createSegment, if_pos hempty,
    (h.latchEOF data index eof).writeSegment_of_clear]
  rw [latchEOF_eq]
  exact h.head_clear

/-- A substring that fills the window leaves nothing pending. -/
theorem Sized.fill (h : r.Sized) {data : List Byte} (hdata : data.length = r.room) :
    (r.pushSubstring data r.output.bytesWritten false).numUnassembledBytes = 0 ∧
    (r.pushSubstring data r.output.bytesWritten false).output.bytesWritten =
      addMod 32 r.output.bytesWritten r.room ∧
    (r.pushSubstring data r.output.bytesWritten false).output.isInputEnded =
      (r.output.isInputEnded || r.receivedEOF) := by
  have hc := h.created data r.output.bytesWritten false
  have hcap := h.capacity_le
  have hw := h.bytesWritten_lt
  have hend := h.end_le
  have hroom : r.room = r.capacity - r.output.endOfBuffer := rfl
  simp only [stringMaxSize] at hcap
  rw [pushSubstring_eq]
  generalize r.created data r.output.bytesWritten false = c at hc ⊢
  have hall : c.assembled = r.room := by
    have hle := hc.sized.assembled_le
    rw [hc.output_eq, hc.capacity_eq] at hle
    have hge : r.room ≤ c.assembled := hc.sized.le_assembled fun p hp => by
      rw [hc.flag_iff, Covers, hdata, addMod_of_lt (by omega)]
      exact Or.inr ⟨by omega, by omega, hp⟩
    omega
  have hnum : c.writeSegment.numUnassembledBytes = 0 := by
    rw [hc.sized.num_writeSegment, List.count_eq_zero]
    intro hmem
    obtain ⟨p, hp⟩ := List.mem_iff_getElem?.mp hmem
    have hflag := hc.sized.flag_room _ ((hc.sized.written_writeSegment p).mp hp)
    rw [hc.output_eq, hc.capacity_eq] at hflag
    omega
  have hout : c.writeSegment.output = c.output.write (c.buffer.take c.assembled) := rfl
  have hframe := c.output.write_frame (c.buffer.take c.assembled)
  rw [hc.sized.writeSize_assembled, hc.output_eq, hall] at hframe
  rw [hall, hc.output_eq] at hout
  rw [endOutput_eq, hout, hframe]
  refine ⟨hnum, rfl, ?_⟩
  change (r.output.isInputEnded || c.receivedEOF && c.writeSegment.numUnassembledBytes == 0) = _
  rw [hnum, hc.receivedEOF_eq, latchEOF_eq_self (by simp)]
  simp

end StreamReassembler

namespace TCPReceiver
open StreamReassembler

/-- The absolute sequence numbers of the segment, unwrapped near the receiver's position. -/
def Occupies (v : TCPReceiver) (seg : TCPSegment) (q : ℕ) : Prop :=
  unwrap seg.header.seqno v.isn v.streamOut.bytesWritten ≤ q ∧
    q < unwrap seg.header.seqno v.isn v.streamOut.bytesWritten + seg.lengthInSequenceSpace

/-- None of the numbers lies between the acknowledgment number and the end of the window, which
counts as one number wide when it is closed. -/
def OutOfWindow (v : TCPReceiver) (seg : TCPSegment) : Prop :=
  seg.header.syn = false ∧ ∀ q, v.Occupies seg q →
    q < 1 + v.position ∨ 1 + v.position + max v.windowSize 1 ≤ q

/-- What can be seen of a receiver; the end of the input is part of the output stream. -/
def observed (v : TCPReceiver) : ByteStream × ℕ × Option WrappingInt32 × ℕ :=
  (v.streamOut, v.unassembledBytes, v.ackno, v.windowSize)

/-- The segment makes no difference, now or after any continuation. -/
def Ignores (v : TCPReceiver) (seg : TCPSegment) : Prop :=
  ∀ ops, anySegments.Admits v ops →
    (anySegments.run (v.segmentReceived seg) ops).observed = (anySegments.run v ops).observed

/-- No byte of the segment is the next one of the stream, and its FIN tells nothing new. -/
structure Harmless (v : TCPReceiver) (seg : TCPSegment) : Prop where
  no_byte : ¬ v.reassembler.Covers seg.payload (v.streamIndex seg.header) 0
  fin_noted : seg.header.fin = true → v.recievedFIN = true ∧
    (v.reassembler.receivedEOF = true ∨ v.reassembler.firstUnacceptable <
      addMod 64 (v.streamIndex seg.header) seg.payload.length)

section OutOfWindow
variable {n : ℕ} {v : TCPReceiver} {seg : TCPSegment}

/-- The only byte that can get in stands where the FIN has been counted. -/
theorem OutOfWindow.covers (hout : v.OutOfWindow seg) (h : v.reassembler.Settled n) {p : ℕ}
    (hp : v.reassembler.Covers seg.payload (v.streamIndex seg.header) p) : p = 0 ∧ v.finBit = 1 := by
  obtain ⟨hsyn, houtside⟩ := hout
  obtain ⟨hlo, hhi, hroom⟩ := hp
  have hcap := h.capacity_le
  have hw := h.bytesWritten_lt
  have hwidth : v.windowSize = v.reassembler.room := h.remainingCapacity_eq
  have hsize : v.reassembler.room ≤ v.reassembler.capacity := Nat.sub_le _ _
  have hlength : seg.payload.length ≤ seg.lengthInSequenceSpace := by
    rw [TCPSegment.lengthInSequenceSpace]
    omega
  have hbit := v.finBit_le
  have habs := unwrap_lt seg.header.seqno v.isn v.streamOut.bytesWritten
  simp only [stringMaxSize] at hcap
  rw [streamIndex, origin_of_not_syn hsyn, hsyn] at hlo hhi
  simp only [Bool.false_eq_true, if_false] at hlo hhi
  have hout : v.streamOut.bytesWritten = v.reassembler.output.bytesWritten := rfl
  have hoccupied := houtside (v.reassembler.output.bytesWritten + p + 1)
  rw [Occupies, position] at hoccupied
  generalize unwrap seg.header.seqno v.isn v.streamOut.bytesWritten = a at *
  rcases Nat.eq_zero_or_pos a with rfl | hpos
  · -- the index of a byte at the SYN's number is `2 ^ 64 - 1`
    have hindex : subMod 64 0 1 = 2 ^ 64 - 1 := rfl
    omega
  · have hle : addMod 64 (a - 1) seg.payload.length ≤ a - 1 + seg.payload.length := Nat.mod_le _ _
    rw [subMod_of_le (by omega) habs] at hlo hhi
    have hwhere := hoccupied ⟨by omega, by omega⟩
    omega

theorem segmentReceived_of_not_covers (h : v.reassembler.Settled n) (hsyn : v.recievedSYN = true)
    (hno : seg.header.syn = false)
    (hnone : ∀ p, ¬ v.reassembler.Covers seg.payload (v.streamIndex seg.header) p) :
    v.segmentReceived seg = { v with
      recievedFIN := v.recievedFIN || seg.header.fin
      reassembler := (v.reassembler.latchEOF seg.payload (v.streamIndex seg.header)
        seg.header.fin).endOutput } := by
  rw [segmentReceived_eq (Or.inl hsyn), origin_of_not_syn hno, h.pushSubstring_of_not_covers hnone,
    ← hsyn]

theorem OutOfWindow.not_covers (hout : v.OutOfWindow seg) (h : v.reassembler.Settled n)
    (hfirst : ¬ v.reassembler.Covers seg.payload (v.streamIndex seg.header) 0) (p : ℕ) :
    ¬ v.reassembler.Covers seg.payload (v.streamIndex seg.header) p := by
  intro hp
  obtain ⟨rfl, -⟩ := hout.covers h hp
  exact hfirst hp

theorem segmentReceived_of_harmless (h : v.reassembler.Settled n) (hsyn : v.recievedSYN = true)
    (hout : v.OutOfWindow seg) (hharm : v.Harmless seg) : v.segmentReceived seg = v := by
  have hfin : (v.recievedFIN || seg.header.fin) = v.recievedFIN := by
    cases hf : seg.header.fin with
    | false => exact Bool.or_false _
    | true => rw [(hharm.fin_noted hf).1, Bool.true_or]
  rw [segmentReceived_of_not_covers h hsyn hout.1 (hout.not_covers h hharm.no_byte), hfin,
    latchEOF_eq_self fun hf => (hharm.fin_noted hf).2, endOutput_eq_self h.ended_of_complete]

/-- A segment that fills the window from its start. -/
def filler (v : TCPReceiver) : TCPSegment :=
  { header := { seqno := wrap (1 + v.streamOut.bytesWritten) v.isn }
    payload := List.replicate v.reassembler.room space }

theorem segmentReceived_filler (h : v.reassembler.Settled n) (hn : n < 2 ^ 31)
    (hsyn : v.recievedSYN = true) :
    (v.segmentReceived v.filler).ackno = some (wrap (1 +
      addMod 32 v.streamOut.bytesWritten v.reassembler.room + if v.recievedFIN then 1 else 0) v.isn) ∧
    (v.segmentReceived v.filler).streamOut.inputEnded =
      (v.streamOut.inputEnded || v.reassembler.receivedEOF) := by
  have hw : v.streamOut.bytesWritten = n := h.bytesWritten_eq
  have hindex : v.streamIndex v.filler.header = v.reassembler.output.bytesWritten := by
    rw [streamIndex, origin_of_not_syn rfl, filler]
    simp only [Bool.false_eq_true, if_false]
    rw [unwrap_wrap _ (by omega) (by omega) (by omega) (by omega),
      subMod_of_le (by omega) (by omega), Nat.add_sub_cancel_left]
    rfl
  have hlisten : v.Listens v.filler := Or.inl hsyn
  have hsize : v.filler.payload.length = v.reassembler.room := List.length_replicate
  obtain ⟨hnum, hbytes, hended⟩ := h.fill hsize
  have heq := segmentReceived_eq hlisten
  rw [hindex, origin_of_not_syn rfl] at heq
  rw [heq]
  refine ⟨?_, hended⟩
  rw [ackno_eq rfl, finBit, StreamReassembler.empty]
  change some (wrap (1 + (v.reassembler.pushSubstring v.filler.payload
    v.reassembler.output.bytesWritten false).output.bytesWritten + if (v.reassembler.pushSubstring
      v.filler.payload v.reassembler.output.bytesWritten false).numUnassembledBytes == 0 then
        if (v.recievedFIN || false) = true then 1 else 0 else 0) v.isn) = _
  rw [hnum, hbytes, Bool.or_false]
  rfl

theorem Ignores.no_byte (hig : v.Ignores seg) (h : v.reassembler.Settled n) (hn : n < 2 ^ 31)
    (hsyn : v.recievedSYN = true) (hout : v.OutOfWindow seg) :
    ¬ v.reassembler.Covers seg.payload (v.streamIndex seg.header) 0 := by
  intro hcover
  have hc := h.created seg.payload (v.streamIndex seg.header) seg.header.fin
  have hnum := (finBit_eq_one_iff.mp (hout.covers h hcover).2).2
  have hone : (v.reassembler.handed seg.payload (v.streamIndex seg.header)
      seg.header.fin).length = 1 := by
    rw [h.length_handed]
    have hge := hc.sized.le_assembled (n := 1) fun p hp => by
      obtain rfl : p = 0 := by omega
      exact (hc.flag_iff 0).mpr (Or.inr hcover)
    by_contra hne
    have hflag := hc.sized.flag_of_lt_assembled (p := 1) (by omega)
    rcases (hc.flag_iff 1).mp hflag with hold | hnew
    · exact h.num_eq_zero_iff.mp hnum 1 hold
    · exact absurd (hout.covers h hnew).1 (by decide)
  have hword : n + (v.reassembler.handed seg.payload (v.streamIndex seg.header)
      seg.header.fin).length < 2 ^ 32 := by omega
  have hbytes := h.bytesWritten_push hword
  have hsame : (v.segmentReceived seg).streamOut = v.streamOut :=
    congrArg Prod.fst (hig [] trivial)
  rw [segmentReceived_eq (Or.inl hsyn)] at hsame
  have hw := congrArg ByteStream.bytesWritten hsame
  change (v.reassembler.pushSubstring _ _ _).output.bytesWritten = v.reassembler.output.bytesWritten
    at hw
  rw [hbytes, h.bytesWritten_eq] at hw
  omega

/-- With the window filled nothing is pending, and both flags of a FIN show. -/
theorem flags_eq_of_filled {v' : TCPReceiver} (h : v.reassembler.Settled n)
    (h' : v'.reassembler.Settled n) (hn : n < 2 ^ 31) (hsyn : v.recievedSYN = true)
    (hsyn' : v'.recievedSYN = true) (hisn : v'.isn = v.isn) (hfill : v'.filler = v.filler)
    (hroom : v'.reassembler.room = v.reassembler.room)
    (hsame : (v'.segmentReceived v.filler).observed = (v.segmentReceived v.filler).observed) :
    v'.recievedFIN = v.recievedFIN ∧
      (v'.streamOut.inputEnded || v'.reassembler.receivedEOF) =
        (v.streamOut.inputEnded || v.reassembler.receivedEOF) := by
  have hw : v'.streamOut.bytesWritten = v.streamOut.bytesWritten :=
    h'.bytesWritten_eq.trans h.bytesWritten_eq.symm
  obtain ⟨hack, hend⟩ := segmentReceived_filler h hn hsyn
  obtain ⟨hack', hend'⟩ := segmentReceived_filler h' hn hsyn'
  rw [hfill, hw, hroom, hisn] at hack'
  rw [hfill] at hend'
  have hackno : (v'.segmentReceived v.filler).ackno = (v.segmentReceived v.filler).ackno :=
    congrArg (·.2.2.1) hsame
  have hended : (v'.segmentReceived v.filler).streamOut.inputEnded =
      (v.segmentReceived v.filler).streamOut.inputEnded := congrArg (·.1.inputEnded) hsame
  rw [hack, hack', Option.some.injEq, wrap_inj_iff] at hackno
  rw [hend, hend'] at hended
  refine ⟨?_, hended⟩
  cases hf : v.recievedFIN <;> cases hf' : v'.recievedFIN <;>
    simp only [hf, hf', Bool.false_eq_true, if_true, if_false] at hackno ⊢ <;> omega

theorem Ignores.fin_noted (hig : v.Ignores seg) (h : v.reassembler.Settled n) (hn : n < 2 ^ 31)
    (hsyn : v.recievedSYN = true) (hout : v.OutOfWindow seg) (hfin : seg.header.fin = true) :
    v.recievedFIN = true ∧ (v.reassembler.receivedEOF = true ∨ v.reassembler.firstUnacceptable <
      addMod 64 (v.streamIndex seg.header) seg.payload.length) := by
  have hlisten : v.Listens seg := Or.inl hsyn
  have hnone := hout.not_covers h (hig.no_byte h hn hsyn hout)
  obtain ⟨ended, heq⟩ : ∃ ended, v.segmentReceived seg = { v with
      recievedFIN := true
      reassembler := { v.reassembler with
        output := { v.reassembler.output with isInputEnded := ended }
        receivedEOF := (v.reassembler.latchEOF seg.payload (v.streamIndex seg.header)
          true).receivedEOF } } := by
    have heq := segmentReceived_of_not_covers h hsyn hout.1 hnone
    rw [hfin, Bool.or_true, endOutput_eq, latchEOF_eq] at heq
    exact ⟨_, heq⟩
  have hset : (v.segmentReceived seg).reassembler.Settled n := by
    have hzero : (v.handed (.segment seg)).length = 0 := by
      rw [handed, if_pos hlisten, h.length_handed_of_not_covers (hnone 0)]
    have hstep := settled_step h (.segment seg) trivial (by omega)
    rwa [hzero] at hstep
  have hsyn' : (v.segmentReceived seg).recievedSYN = true := by
    rw [heq]
    exact hsyn
  have hflags := flags_eq_of_filled h hset hn hsyn hsyn' (by rw [heq]) (by rw [heq]; rfl)
    (by rw [heq]; rfl) (hig [.segment v.filler] ⟨trivial, trivial⟩)
  rw [heq] at hflags
  obtain ⟨hnoted, hended⟩ := hflags
  refine ⟨hnoted.symm, ?_⟩
  by_contra hneither
  rw [not_or] at hneither
  obtain ⟨hrec, hle⟩ := hneither
  have hopen : ¬ v.streamOut.inputEnded = true := fun hc => hrec (h.received_of_ended hc)
  have hlatch : (v.reassembler.latchEOF seg.payload (v.streamIndex seg.header)
      true).receivedEOF = true := by
    simp only [latchEOF, Bool.true_and]
    rw [if_pos (beq_iff_eq.mpr (by omega))]
  change (ended || (v.reassembler.latchEOF _ _ true).receivedEOF) = _ at hended
  rw [hlatch, Bool.or_true] at hended
  rcases Bool.or_eq_true _ _ |>.mp hended.symm with hc | hc
  · exact hopen hc
  · exact hrec hc

theorem ignores_iff_harmless (h : v.reassembler.Settled n) (hn : n < 2 ^ 31)
    (hsyn : v.recievedSYN = true) (hout : v.OutOfWindow seg) : v.Ignores seg ↔ v.Harmless seg := by
  constructor
  · intro hig
    exact ⟨hig.no_byte h hn hsyn hout, hig.fin_noted h hn hsyn hout⟩
  · intro hharm ops _
    rw [segmentReceived_of_harmless h hsyn hout hharm]

theorem outOfWindow_of_le (hno : seg.header.syn = false)
    (h : 1 + v.position + max v.windowSize 1 ≤
      unwrap seg.header.seqno v.isn v.streamOut.bytesWritten) : v.OutOfWindow seg :=
  ⟨hno, fun _ hq => Or.inr (h.trans hq.1)⟩

end OutOfWindow

/-- In every state that a receiver reaches, whatever arrives, a segment outside of the window goes
unnoticed if and only if it is harmless. -/
theorem out_of_window_ignored_iff {capacity : ℕ} {v₀ : TCPReceiver}
    (hnew : new capacity = some v₀) {ops : List Op} (hops : anySegments.Admits v₀ ops)
    (hlen : (anySegments.collect handed v₀ ops).length < 2 ^ 31)
    (hsyn : (anySegments.run v₀ ops).recievedSYN = true) {seg : TCPSegment}
    (hout : (anySegments.run v₀ ops).OutOfWindow seg) :
    (anySegments.run v₀ ops).Ignores seg ↔ (anySegments.run v₀ ops).Harmless seg :=
  ignores_iff_harmless (settled_run hnew hops (by omega)) hlen hsyn hout

theorem out_of_window_ignored_data :
    ∃ v₀, new 4 = some v₀ ∧
      (anySegments.run v₀ [.segment { header := { seqno := ⟨9⟩, syn := true } }]).Ignores
        { header := { seqno := ⟨20⟩ }, payload := [7, 8] } := by
  refine ⟨_, rfl, (out_of_window_ignored_iff (show new 4 = some _ from rfl) (by decide) (by decide)
    (by decide) (outOfWindow_of_le rfl (by decide))).mpr ⟨?_, fun hfin => by cases hfin⟩⟩
  exact fun hcover => absurd hcover.1 (by decide)

/-- A lone FIN far behind the window is acknowledged at once. -/
theorem out_of_window_fin_acknowledged :
    ∃ v₀, new 4 = some v₀ ∧
      (anySegments.run v₀ [.segment { header := { seqno := ⟨9⟩, syn := true } }]).OutOfWindow
        { header := { seqno := ⟨20⟩, fin := true } } ∧
      (anySegments.run v₀ [.segment { header := { seqno := ⟨9⟩, syn := true } }]).ackno =
        some ⟨10⟩ ∧
      ((anySegments.run v₀ [.segment { header := { seqno := ⟨9⟩, syn := true } }]).segmentReceived
        { header := { seqno := ⟨20⟩, fin := true } }).ackno = some ⟨11⟩ ∧
      ¬ (anySegments.run v₀ [.segment { header := { seqno := ⟨9⟩, syn := true } }]).Ignores
        { header := { seqno := ⟨20⟩, fin := true } } := by
  refine ⟨_, rfl, outOfWindow_of_le rfl (by decide), by decide, by decide, fun hig => ?_⟩
  exact absurd (congrArg (·.2.2.1) (hig [] trivial)) (by decide)

end TCPReceiver
end Sponge
