import Sponge.ReassemblerRuns
import Sponge.TCPReceiver

/-!
# Runs of a receiver on the segments of one stream

The acknowledgment number adds one for a FIN as soon as nothing is pending. It
is exact as long as no FIN is taken before the byte in front of it, and none
whose end lies behind the window.
-/
namespace Sponge
namespace TCPReceiver
open StreamReassembler MachineWords

/-- What every receiver of the stream `S` satisfies, whatever the order of arrival. -/
structure Agrees (isn : WrappingInt32) (S taken : List Byte) (v : TCPReceiver) : Prop where
  represents : Represents S taken v.reassembler
  isn_eq : v.recievedSYN = true → v.isn = isn
  silent : v.recievedSYN = false → v.recievedFIN = false

/-- The two flags latched by a FIN agree, and the end of the output is the end of `S`. -/
structure FinAgrees (S : List Byte) (arrived : Prop) (v : TCPReceiver) : Prop where
  flag_eq : v.recievedFIN = v.reassembler.receivedEOF
  ends : EndAgrees S arrived v.reassembler

/-- A FIN is taken only inside the window, and on its own only behind the last byte of `S`. -/
def FinTimely (S : List Byte) (v : TCPReceiver) (seg : TCPSegment) : Prop :=
  seg.header.fin = true → v.Listens seg → S.length ≤ v.reassembler.windowEnd ∧
    (seg.payload = [] → S = [] ∨ v.reassembler.Holds (S.length - 1))

section Receive
variable {isn : WrappingInt32} {S taken : List Byte} {v : TCPReceiver} {seg : TCPSegment} {i : ℕ}

theorem Agrees.segmentReceived (h : Agrees isn S taken v) (hS : S.length < 2 ^ 31 - 2)
    (hseg : seg.Carries isn S i) : Agrees isn S taken (v.segmentReceived seg) := by
  by_cases hlisten : v.Listens seg
  · rw [segmentReceived_of_carries hseg hlisten h.isn_eq hS h.represents.bytesWritten_le]
    refine ⟨?_, fun _ => rfl, fun hs => by cases hs⟩
    exact (h.represents.toFilled.pushSubstring (by omega) (Or.inr hseg.isSlice) _).represents
  · rw [segmentReceived_of_not_listens hlisten]
    exact h

theorem FinAgrees.segmentReceived {arrived : Prop} (hf : FinAgrees S arrived v)
    (h : Agrees isn S taken v) (hS : S.length < 2 ^ 31 - 2) (hseg : seg.Carries isn S i)
    (hend : seg.header.fin = true → i + seg.payload.length = S.length)
    (htimely : FinTimely S v seg) :
    FinAgrees S (arrived ∨ seg.header.fin = true ∧ v.Listens seg ∧
      S.length ≤ v.reassembler.windowEnd) (v.segmentReceived seg) := by
  by_cases hlisten : v.Listens seg
  · have hbound := hseg.isSlice.end_le
    have henabled : Enabled S v.reassembler (.push seg.payload i seg.header.fin) :=
      ⟨hseg.isSlice, hend⟩
    have hstep := hf.ends.step h.represents (by omega) henabled
      (fun he hdata _ => (htimely he hlisten).2 hdata)
    have hrec := (h.represents.toFilled.pushSubstring (by omega) (Or.inr hseg.isSlice)
      seg.header.fin).receivedEOF_eq
    rw [h.represents.toFilled.receivedEOF_latchEOF (by omega) (by omega)] at hrec
    rw [segmentReceived_of_carries hseg hlisten h.isn_eq hS h.represents.bytesWritten_le]
    refine ⟨?_, hstep.received_iff.trans (or_congr Iff.rfl ?_), hstep.last_held, hstep.ended_iff⟩
    · change (v.recievedFIN || seg.header.fin) = _
      rw [hrec, hf.flag_eq]
      by_cases hfin : seg.header.fin = true
      · have hwin := (htimely hfin hlisten).1
        rw [← hend hfin] at hwin
        simp [hfin, hwin]
      · simp [hfin]
    · change seg.header.fin = true ∧ _ ↔ _
      simp only [hlisten, true_and]
      rfl
  · rw [segmentReceived_of_not_listens hlisten]
    refine ⟨hf.flag_eq, hf.ends.received_iff.trans (or_iff_left ?_).symm, hf.ends.last_held,
      hf.ends.ended_iff⟩
    exact fun hnew => hlisten hnew.2.1

theorem Agrees.append_right (h : Agrees isn S taken v) (more : List Byte) :
    Agrees isn (S ++ more) taken v :=
  ⟨h.represents.append_right more, h.isn_eq, h.silent⟩

theorem Agrees.setError (h : Agrees isn S taken v) : Agrees isn S taken v.setError :=
  ⟨h.represents.setError, h.isn_eq, h.silent⟩

theorem FinAgrees.setError {arrived : Prop} (hf : FinAgrees S arrived v) :
    FinAgrees S arrived v.setError :=
  ⟨hf.flag_eq, hf.ends.received_iff, hf.ends.last_held, hf.ends.ended_iff⟩

/-- Before a FIN arrives the end of the stream is open. -/
theorem FinAgrees.of_silent {arrived : Prop} (hf : FinAgrees S arrived v)
    (hsilent : v.recievedFIN = false) (S' : List Byte) : FinAgrees S' arrived v := by
  have hrec : v.reassembler.receivedEOF = false := hf.flag_eq.symm.trans hsilent
  have hopen : ¬ v.reassembler.output.isInputEnded = true := by
    rw [hf.ends.ended_iff, hrec]
    simp
  refine ⟨hf.flag_eq, hf.ends.received_iff, ?_, ?_⟩
  · intro hr
    rw [hrec] at hr
    cases hr
  · refine iff_of_false hopen ?_
    rw [hrec]
    simp

theorem segmentReceived_of_blank (hlisten : v.recievedSYN = true) (hpayload : seg.payload = [])
    (hsyn : seg.header.syn = false) (hfin : seg.header.fin = false) :
    ∃ index, v.segmentReceived seg =
      { v with reassembler := v.reassembler.pushSubstring [] index false } := by
  refine ⟨v.streamIndex seg.header, ?_⟩
  rw [segmentReceived_eq (Or.inl hlisten), origin]
  simp [hlisten, hsyn, hfin, hpayload]

/-- A segment without payload and flags leaves the receiver in agreement. -/
theorem Agrees.segmentReceived_blank (h : Agrees isn S taken v) (hS : S.length < 2 ^ 32)
    (hpayload : seg.payload = []) (hsyn : seg.header.syn = false)
    (hfin : seg.header.fin = false) :
    Agrees isn S taken (v.segmentReceived seg) ∧
      ∀ arrived, FinAgrees S arrived v → FinAgrees S arrived (v.segmentReceived seg) := by
  cases hlisten : v.recievedSYN with
  | false =>
    rw [segmentReceived_of_not_listens (by simp [Listens, hlisten, hsyn])]
    exact ⟨h, fun _ hf => hf⟩
  | true =>
    obtain ⟨index, heq⟩ := segmentReceived_of_blank hlisten hpayload hsyn hfin
    rw [heq]
    have hp : Pushed S taken v.reassembler [] index false
        (v.reassembler.pushSubstring [] index false) :=
      h.represents.toFilled.pushSubstring hS (Or.inl rfl) false
    refine ⟨⟨hp.represents, h.isn_eq, h.silent⟩, fun arrived hf => ⟨?_, ?_⟩⟩
    · have hrec := hp.receivedEOF_eq
      rw [latchEOF_eq_self (by simp)] at hrec
      exact hf.flag_eq.trans hrec.symm
    · exact hf.ends.push_nil h.represents hS index

/-- What is written stays written, and an ended stream stays ended. -/
theorem Agrees.segmentReceived_mono (h : Agrees isn S taken v) (hS : S.length < 2 ^ 31 - 2)
    (hseg : (∃ i, seg.Carries isn S i) ∨
      seg.payload = [] ∧ seg.header.syn = false ∧ seg.header.fin = false) :
    v.streamOut.bytesWritten ≤ (v.segmentReceived seg).streamOut.bytesWritten ∧
      (v.streamOut.inputEnded = true → (v.segmentReceived seg).streamOut.inputEnded = true) := by
  have hpush : ∀ data index eof, (data = [] ∨ IsSlice S index data) →
      v.reassembler.output.bytesWritten ≤
          (v.reassembler.pushSubstring data index eof).output.bytesWritten ∧
        (v.reassembler.output.isInputEnded = true →
          (v.reassembler.pushSubstring data index eof).output.isInputEnded = true) := by
    intro data index eof hdata
    have hp := h.represents.toFilled.pushSubstring (by omega) hdata eof
    refine ⟨hp.bytesWritten_le, ?_⟩
    intro hended
    rw [hp.ended_eq, hended, Bool.true_or]
  by_cases hlisten : v.Listens seg
  · rcases hseg with ⟨i, hcarries⟩ | ⟨hpayload, hsyn, hfin⟩
    · rw [segmentReceived_of_carries hcarries hlisten h.isn_eq hS h.represents.bytesWritten_le]
      exact hpush _ _ _ (Or.inr hcarries.isSlice)
    · have hgot : v.recievedSYN = true := by simpa [Listens, hsyn] using hlisten
      obtain ⟨index, heq⟩ := segmentReceived_of_blank hgot hpayload hsyn hfin
      rw [heq]
      exact hpush _ _ _ (Or.inl rfl)
  · rw [segmentReceived_of_not_listens hlisten]
    exact ⟨le_refl _, id⟩

theorem FinAgrees.finBit_eq {arrived : Prop} (hf : FinAgrees S arrived v)
    (h : Agrees isn S taken v) :
    v.finBit = if v.streamOut.inputEnded then 1 else 0 := by
  have hended : v.streamOut.inputEnded = true ↔
      v.reassembler.empty = true ∧ v.recievedFIN = true := by
    change v.reassembler.output.isInputEnded = true ↔ _
    rw [hf.ends.ended_iff, hf.flag_eq, StreamReassembler.empty, beq_iff_eq]
    constructor
    · rintro ⟨hr, hw⟩
      exact ⟨h.represents.num_eq_zero_of_complete hw, hr⟩
    · rintro ⟨hnum, hr⟩
      exact ⟨hr, h.represents.complete_of_last_held (hf.ends.last_held hr) hnum⟩
  rw [finBit]
  cases hemp : v.reassembler.empty <;> cases hfin : v.recievedFIN <;> simp_all

theorem agrees_new {capacity : ℕ} (hnew : new capacity = some v) (isn : WrappingInt32)
    (S : List Byte) : Agrees isn S [] v ∧ FinAgrees S False v := by
  obtain ⟨r, hr, rfl⟩ := new_eq_some hnew
  have hrep := represents_new hr S
  obtain ⟨output, hout, rfl⟩ := StreamReassembler.new_eq_some hr
  obtain ⟨-, rfl⟩ := ByteStream.new_eq_some hout
  exact ⟨⟨hrep, by simp, by simp⟩, rfl, ⟨by simp, by simp, by simp⟩⟩

end Receive

inductive Op where
  | segment (seg : TCPSegment)
  | read (len : ℕ)
  | pop (len : ℕ)
  deriving DecidableEq

def step (v : TCPReceiver) : Op → TCPReceiver
  | .segment seg => v.segmentReceived seg
  | .read len => (v.read len).2
  | .pop len => v.popOutput len

/-- Segments belong to the stream `S`, and only its last ones carry a FIN. -/
def Enabled (isn : WrappingInt32) (S : List Byte) (v : TCPReceiver) : Op → Prop
  | .segment seg => ∃ i, seg.Carries isn S i ∧
      (seg.header.fin = true → i + seg.payload.length = S.length)
  | .read _ => True
  | .pop len => len ≤ v.streamOut.bufferSize

def machine (isn : WrappingInt32) (S : List Byte) : Machine TCPReceiver Op := ⟨step, Enabled isn S⟩

def removed (v : TCPReceiver) : Op → List Byte
  | .segment _ => []
  | .read len => (v.read len).1
  | .pop len => v.streamOut.peekOutput len

def SynArrives (_ : TCPReceiver) : Op → Prop
  | .segment seg => seg.header.syn = true
  | _ => False

/-- A FIN arrives after the SYN, or with it, and lies inside the window. -/
def FinArrives (S : List Byte) (v : TCPReceiver) : Op → Prop
  | .segment seg => seg.header.fin = true ∧ v.Listens seg ∧ S.length ≤ v.reassembler.windowEnd
  | _ => False

def Timely (S : List Byte) (v : TCPReceiver) : Op → Prop
  | .segment seg => FinTimely S v seg
  | _ => True

/-- Sequence number `q` of the stream is assembled: the SYN's, that of a byte written to the
output, or that of the FIN once it has arrived and all bytes are written. -/
def Assembled (S : List Byte) (finArrived : Prop) (v : TCPReceiver) (q : ℕ) : Prop :=
  q = 0 ∨ 1 ≤ q ∧ q ≤ S.length ∧ q ≤ v.streamOut.bytesWritten ∨
    q = S.length + 1 ∧ finArrived ∧ v.streamOut.bytesWritten = S.length

/-- The acknowledgment number after the run is exact. -/
def AcknoExact (isn : WrappingInt32) (S : List Byte) (v₀ : TCPReceiver) (ops : List Op) : Prop :=
  let v := (machine isn S).run v₀ ops
  let e := if v.streamOut.inputEnded then 1 else 0
  (¬ (machine isn S).Occurs SynArrives v₀ ops → v.ackno = none) ∧
  ((machine isn S).Occurs SynArrives v₀ ops →
    v.ackno = some (wrap (1 + v.streamOut.bytesWritten + e) isn) ∧
    ∀ q < 1 + v.streamOut.bytesWritten + e,
      Assembled S ((machine isn S).Occurs (FinArrives S) v₀ ops) v q)

section Run
variable {isn : WrappingInt32} {S taken : List Byte} {v : TCPReceiver} {op : Op}

theorem Agrees.step (h : Agrees isn S taken v) (hS : S.length < 2 ^ 31 - 2)
    (hop : Enabled isn S v op) : Agrees isn S (taken ++ removed v op) (v.step op) := by
  cases op with
  | segment seg =>
    obtain ⟨i, hseg, -⟩ := hop
    rw [removed, List.append_nil]
    exact h.segmentReceived hS hseg
  | read len => exact ⟨h.represents.read (by omega), h.isn_eq, h.silent⟩
  | pop len =>
    refine ⟨?_, h.isn_eq, h.silent⟩
    rw [removed, peekOutput_eq hop]
    exact h.represents.popOutput (by omega) hop

theorem recievedSYN_step (hop : Enabled isn S v op) (h : Agrees isn S taken v)
    (hS : S.length < 2 ^ 31 - 2) :
    (v.step op).recievedSYN = true ↔ v.recievedSYN = true ∨ SynArrives v op := by
  cases op with
  | segment seg =>
    obtain ⟨i, hseg, -⟩ := hop
    change (v.segmentReceived seg).recievedSYN = true ↔ v.Listens seg
    by_cases hlisten : v.Listens seg
    · rw [segmentReceived_of_carries hseg hlisten h.isn_eq hS h.represents.bytesWritten_le]
      simp [hlisten]
    · rw [segmentReceived_of_not_listens hlisten]
      simp only [hlisten, iff_false]
      exact fun hs => hlisten (Or.inl hs)
  | read len => exact (or_iff_left id).symm
  | pop len => exact (or_iff_left id).symm

theorem FinAgrees.step {arrived : Prop} (hf : FinAgrees S arrived v) (h : Agrees isn S taken v)
    (hS : S.length < 2 ^ 31 - 2) (hop : Enabled isn S v op) (htimely : Timely S v op) :
    FinAgrees S (arrived ∨ FinArrives S v op) (v.step op) := by
  cases op with
  | segment seg =>
    obtain ⟨i, hseg, hend⟩ := hop
    exact hf.segmentReceived h hS hseg hend htimely
  | read len =>
    exact ⟨hf.flag_eq, hf.ends.received_iff.trans (or_iff_left id).symm, hf.ends.last_held,
      hf.ends.ended_iff⟩
  | pop len =>
    exact ⟨hf.flag_eq, hf.ends.received_iff.trans (or_iff_left id).symm, hf.ends.last_held,
      hf.ends.ended_iff⟩

variable {capacity : ℕ} {v₀ : TCPReceiver} {ops : List Op} (hnew : new capacity = some v₀)
  (hS : S.length < 2 ^ 31 - 2)
include hnew hS

theorem agrees_run (hops : (machine isn S).Admits v₀ ops) :
    Agrees isn S ((machine isn S).collect removed v₀ ops) ((machine isn S).run v₀ ops) ∧
      (((machine isn S).run v₀ ops).recievedSYN = true ↔
        (machine isn S).Occurs SynArrives v₀ ops) := by
  refine (machine isn S).run_induction (P := fun ops =>
    Agrees isn S ((machine isn S).collect removed v₀ ops) ((machine isn S).run v₀ ops) ∧
      (((machine isn S).run v₀ ops).recievedSYN = true ↔
        (machine isn S).Occurs SynArrives v₀ ops)) ?_ ?_ hops
  · refine ⟨(agrees_new hnew isn S).1, ?_⟩
    obtain ⟨r, -, rfl⟩ := new_eq_some hnew
    simp
  · intro past op _ hop ih
    obtain ⟨hag, hsyn⟩ := ih
    rw [Machine.run_snoc, Machine.collect_snoc, Machine.occurs_snoc]
    exact ⟨hag.step hS hop, (recievedSYN_step hop hag hS).trans (or_congr hsyn Iff.rfl)⟩

theorem finAgrees_run (hops : ((machine isn S).restrict (Timely S)).Admits v₀ ops) :
    FinAgrees S ((machine isn S).Occurs (FinArrives S) v₀ ops) ((machine isn S).run v₀ ops) := by
  refine ((machine isn S).restrict (Timely S)).run_induction (P := fun ops =>
    FinAgrees S ((machine isn S).Occurs (FinArrives S) v₀ ops)
      ((machine isn S).run v₀ ops)) ?_ ?_ hops
  · exact (agrees_new hnew isn S).2
  · intro past op hpast hop ih
    obtain ⟨hag, -⟩ := agrees_run hnew hS ((machine isn S).admits_of_restrict hpast)
    rw [Machine.run_snoc, Machine.occurs_snoc]
    exact ih.step hag hS hop.1 hop.2

end Run

/-- If every FIN comes in time, the acknowledgment number is exact. -/
theorem ackno_exact_of_timely {capacity : ℕ} {v₀ : TCPReceiver} (hnew : new capacity = some v₀)
    {isn : WrappingInt32} {S : List Byte} (hS : S.length < 2 ^ 31 - 2) {ops : List Op}
    (hops : ((machine isn S).restrict (Timely S)).Admits v₀ ops) : AcknoExact isn S v₀ ops := by
  obtain ⟨hag, hsyn⟩ := agrees_run hnew hS ((machine isn S).admits_of_restrict hops)
  have hf := finAgrees_run hnew hS hops
  refine ⟨fun hno => ?_, fun hyes => ⟨?_, ?_⟩⟩
  · rw [ackno, if_neg (fun h => hno (hsyn.mp h))]
  · rw [ackno_eq (hsyn.mpr hyes), hag.isn_eq (hsyn.mpr hyes), hf.finBit_eq hag]
    rfl
  · intro q hq
    have hle : ((machine isn S).run v₀ ops).streamOut.bytesWritten ≤ S.length :=
      hag.represents.bytesWritten_le
    rcases Nat.eq_zero_or_pos q with rfl | hpos
    · exact Or.inl rfl
    · by_cases hbyte : q ≤ ((machine isn S).run v₀ ops).streamOut.bytesWritten
      · exact Or.inr (Or.inl ⟨hpos, by omega, hbyte⟩)
      · -- only the FIN can lie behind the written bytes
        split at hq
        · next hended =>
          obtain ⟨hr, hw⟩ := hf.ends.ended_iff.mp hended
          have hw' : ((machine isn S).run v₀ ops).streamOut.bytesWritten = S.length := hw
          exact Or.inr (Or.inr ⟨by omega, hf.ends.received_iff.mp hr, hw'⟩)
        · omega

theorem ackno_exact_of_timely_short :
    ∃ v₀, new 4 = some v₀ ∧ AcknoExact ⟨9⟩ [7] v₀
      [.segment { header := { seqno := ⟨9⟩, syn := true } },
       .segment { header := { seqno := ⟨10⟩, fin := true }, payload := [7] }] := by
  refine ⟨_, rfl, ackno_exact_of_timely (show new 4 = some _ from rfl) (by decide) ?_⟩
  refine ⟨⟨⟨0, .syn rfl rfl (by decide), by decide⟩, ?_⟩,
    ⟨⟨0, .data 0 rfl rfl (by decide), by decide⟩, ?_⟩, trivial⟩
  · intro hfin
    cases hfin
  · exact fun _ _ => ⟨by decide, fun hdata => by cases hdata⟩

/-- A FIN that overtakes the only byte of the stream is acknowledged at the byte's number. -/
theorem ackno_covers_missing_byte :
    ∃ v₀, new 4 = some v₀ ∧
      (machine ⟨9⟩ [7]).Admits v₀
        [.segment { header := { seqno := ⟨9⟩, syn := true } },
         .segment { header := { seqno := ⟨11⟩, fin := true } }] ∧
      ((machine ⟨9⟩ [7]).run v₀
        [.segment { header := { seqno := ⟨9⟩, syn := true } },
         .segment { header := { seqno := ⟨11⟩, fin := true } }]).ackno = some (wrap 2 ⟨9⟩) ∧
      ¬ AcknoExact ⟨9⟩ [7] v₀
        [.segment { header := { seqno := ⟨9⟩, syn := true } },
         .segment { header := { seqno := ⟨11⟩, fin := true } }] := by
  refine ⟨_, rfl, ?_, by decide, ?_⟩
  · exact ⟨⟨0, .syn rfl rfl (by decide), by decide⟩, ⟨1, .data 1 rfl rfl (by decide), by decide⟩,
      trivial⟩
  · intro h
    have hbyte := (h.2 (Or.inl rfl)).2 1 (by decide)
    rcases hbyte with h0 | ⟨-, -, hw⟩ | ⟨hq, -⟩
    · exact absurd h0 (by decide)
    · exact absurd hw (by decide)
    · exact absurd hq (by decide)

end TCPReceiver
end Sponge
