import Sponge.ReceiverRuns

/-!
# Receivers of arbitrary segments

The segments need not belong to one stream. Whatever arrives, the number of bytes handed to the
output only grows. The acknowledgment number can move back: a FIN counts as soon as nothing is
pending, and no longer once a byte behind a gap is stored; and a later SYN overwrites the origin.
-/
namespace Sponge
open MachineWords

namespace StreamReassembler

/-- The bytes a call of `push_substring` hands to the output. -/
def handed (r : StreamReassembler) (data : List Byte) (index : ℕ) (eof : Bool) : List Byte :=
  (r.created data index eof).buffer.take (r.created data index eof).assembled

/-- Between two calls, after `n` bytes have been handed to the output in all. -/
structure Settled (n : ℕ) (r : StreamReassembler) : Prop extends Sized r where
  head_clear : r.written[0]? ≠ some true
  bytesWritten_eq : r.output.bytesWritten = n
  buffered_le : r.output.endOfBuffer ≤ n
  ended_of_complete : r.receivedEOF = true → r.numUnassembledBytes = 0 →
    r.output.isInputEnded = true
  received_of_ended : r.output.isInputEnded = true → r.receivedEOF = true

/-- The substring starts inside the window, behind its first byte. -/
def OpensGap (r : StreamReassembler) (data : List Byte) (index : ℕ) : Prop :=
  r.output.bytesWritten < index ∧ index < min r.firstUnacceptable (addMod 64 index data.length)

instance (r : StreamReassembler) (data : List Byte) (index : ℕ) :
    Decidable (r.OpensGap data index) := inferInstanceAs (Decidable (_ ∧ _))

theorem settled_new {capacity : ℕ} {r : StreamReassembler} (h : new capacity = some r) :
    r.Settled 0 := by
  obtain ⟨hs, hclear⟩ := sized_new h
  obtain ⟨output, hout, rfl⟩ := new_eq_some h
  obtain ⟨-, rfl⟩ := ByteStream.new_eq_some hout
  exact ⟨hs, hclear 0, rfl, le_refl 0, by simp, by simp⟩

theorem Sized.length_handed {r : StreamReassembler} (h : r.Sized) (data : List Byte) (index : ℕ)
    (eof : Bool) : (r.handed data index eof).length = (r.created data index eof).assembled := by
  have hc := (h.created data index eof).sized
  have hle := hc.assembled_le
  rw [handed, List.length_take, hc.length_buffer]
  omega

theorem receivedEOF_latchEOF_of_received {r : StreamReassembler} (h : r.receivedEOF = true)
    (data : List Byte) (index : ℕ) (eof : Bool) :
    (r.latchEOF data index eof).receivedEOF = true := by
  simp only [latchEOF]
  split
  · rfl
  · exact h

namespace Settled
variable {n : ℕ} {r : StreamReassembler} {data : List Byte} {index : ℕ} {eof : Bool}

/-- Without a byte for the start of the window nothing is handed over. -/
theorem length_handed_of_not_covers (h : r.Settled n) (hfirst : ¬ r.Covers data index 0)
    (eof : Bool) : (r.handed data index eof).length = 0 := by
  have hc := h.created data index eof
  rw [h.length_handed]
  by_contra hne
  rcases (hc.flag_iff 0).mp (hc.sized.flag_of_lt_assembled (Nat.pos_of_ne_zero hne)) with hold | hnew
  · exact h.head_clear hold
  · exact hfirst hnew

section Push
variable (h : r.Settled n) (hn : n + (r.handed data index eof).length < 2 ^ 32)
include h hn

theorem shifted : Shifted (r.created data index eof) (r.pushSubstring data index eof) := by
  have hc := h.created data index eof
  have hbuf := h.buffered_le
  rw [h.length_handed] at hn
  exact hc.sized.shifted (by rw [hc.output_eq]; omega)

theorem bytesWritten_push : (r.pushSubstring data index eof).output.bytesWritten =
    n + (r.handed data index eof).length := by
  rw [(h.shifted hn).bytesWritten_eq, (h.created data index eof).output_eq, h.bytesWritten_eq,
    ← h.length_handed, addMod_of_lt hn]

theorem pushSubstring : (r.pushSubstring data index eof).Settled
    (n + (r.handed data index eof).length) := by
  have hc := h.created data index eof
  have hs := h.shifted hn
  have hbuf := h.buffered_le
  refine ⟨hs.sized, hs.head_clear, h.bytesWritten_push hn, ?_, fun hrec hnum => ?_, fun hended => ?_⟩
  · rw [hs.endOfBuffer_eq, hc.output_eq, h.length_handed]
    omega
  · rw [hs.ended_eq, hrec, hnum]
    simp
  · rw [hs.ended_eq, Bool.or_eq_true, Bool.and_eq_true] at hended
    rcases hended with hold | ⟨hrec, -⟩
    · rw [hs.receivedEOF_eq, hc.receivedEOF_eq]
      rw [hc.output_eq] at hold
      exact receivedEOF_latchEOF_of_received (h.received_of_ended hold) data index eof
    · exact hrec

/-- With nothing pending, the window flags after `create_segment` are the covered positions. -/
theorem flag_push_iff (hnum : r.numUnassembledBytes = 0) (p : ℕ) :
    (r.pushSubstring data index eof).written[p]? = some true ↔
      r.Covers data index ((r.created data index eof).assembled + p) := by
  rw [(h.shifted hn).flag_iff, (h.created data index eof).flag_iff]
  exact or_iff_right (h.num_eq_zero_iff.mp hnum _)

theorem num_push_eq_zero (hnum : r.numUnassembledBytes = 0) (hgap : ¬ r.OpensGap data index) :
    (r.pushSubstring data index eof).numUnassembledBytes = 0 := by
  have hc := h.created data index eof
  have hedge := h.firstUnacceptable_eq
  rw [(h.pushSubstring hn).num_eq_zero_iff]
  intro p hp
  obtain ⟨hlo, hhi, hroom⟩ := (h.flag_push_iff hn hnum p).mp hp
  by_cases hfirst : index ≤ r.output.bytesWritten
  · -- everything up to the position is covered, so it has been handed over
    have hrun := hc.sized.le_assembled (n := (r.created data index eof).assembled + p + 1) (by
      intro q hq
      rw [hc.flag_iff]
      exact Or.inr ⟨by omega, by omega, by omega⟩)
    omega
  · exact hgap ⟨by omega, by omega⟩

/-- A substring behind a gap is stored and nothing is handed over. -/
theorem push_of_opensGap (hnum : r.numUnassembledBytes = 0) (hgap : r.OpensGap data index) :
    (r.handed data index eof).length = 0 ∧
      (r.pushSubstring data index eof).numUnassembledBytes ≠ 0 := by
  obtain ⟨hfirst, hlt⟩ := hgap
  have hedge := h.firstUnacceptable_eq
  have huncovered : ¬ r.Covers data index 0 := fun hcover => Nat.not_le.mpr hfirst hcover.1
  have hnone := h.length_handed_of_not_covers huncovered eof
  refine ⟨hnone, ?_⟩
  rw [Ne, (h.pushSubstring hn).num_eq_zero_iff]
  intro hclear
  refine hclear (index - r.output.bytesWritten) ((h.flag_push_iff hn hnum _).mpr ?_)
  rw [← h.length_handed, hnone]
  exact ⟨by omega, by omega, by omega⟩

end Push

theorem popOutput (h : r.Settled n) {len : ℕ} (hlen : len ≤ r.output.endOfBuffer) :
    (r.popOutput len).Settled n := by
  have hend : (r.popOutput len).output.endOfBuffer = r.output.endOfBuffer - len :=
    h.output_wf.endOfBuffer_popOutput hlen
  have hbuf := h.buffered_le
  exact ⟨h.toSized.popOutput hlen, h.head_clear, h.bytesWritten_eq, by omega,
    h.ended_of_complete, h.received_of_ended⟩

end Settled
end StreamReassembler

namespace TCPReceiver
open StreamReassembler

/-- Any segment may arrive; the reader pops no more than there is. -/
def InRange (v : TCPReceiver) : Op → Prop
  | .segment _ => True
  | .read _ => True
  | .pop len => len ≤ v.streamOut.bufferSize

def anySegments : Machine TCPReceiver Op := ⟨step, InRange⟩

instance (v : TCPReceiver) (op : Op) : Decidable (anySegments.enabled v op) := by
  cases op <;> simp only [anySegments, InRange] <;> infer_instance

/-- The bytes an operation adds to the output. -/
def handed (v : TCPReceiver) : Op → List Byte
  | .segment seg => if v.Listens seg then
      v.reassembler.handed seg.payload (v.streamIndex seg.header) seg.header.fin else []
  | .read _ => []
  | .pop _ => []

section Step
variable {n : ℕ} {v : TCPReceiver} {op : Op}

theorem settled_step (h : v.reassembler.Settled n) (op : Op) (hop : v.InRange op)
    (hn : n + (v.handed op).length < 2 ^ 32) :
    (v.step op).reassembler.Settled (n + (v.handed op).length) := by
  cases op with
  | segment seg =>
    rw [handed] at hn ⊢
    rw [step]
    by_cases hlisten : v.Listens seg
    · rw [if_pos hlisten] at hn ⊢
      rw [segmentReceived_eq hlisten]
      exact h.pushSubstring hn
    · rw [if_neg hlisten, segmentReceived_of_not_listens hlisten]
      exact h
  | read len => exact h.popOutput (v.reassembler.output.readLen_le len)
  | pop len => exact h.popOutput hop

/-- The sequence numbers behind the SYN's that the receiver acknowledges. -/
def position (v : TCPReceiver) : ℕ := v.streamOut.bytesWritten + v.finBit

theorem ackno_eq_position (hsyn : v.recievedSYN = true) :
    v.ackno = some (wrap (1 + v.position) v.isn) := by
  rw [ackno_eq hsyn, Nat.add_assoc]
  rfl

theorem finBit_eq_one_iff :
    v.finBit = 1 ↔ v.recievedFIN = true ∧ v.reassembler.numUnassembledBytes = 0 := by
  rw [finBit, StreamReassembler.empty]
  by_cases hnum : v.reassembler.numUnassembledBytes = 0
  · cases v.recievedFIN <;> simp [hnum]
  · simp [hnum]

/-- A later SYN repeats the origin, and no byte behind a gap is stored while a FIN counts. -/
def KeepsAckno (v : TCPReceiver) : Op → Prop
  | .segment seg => v.recievedSYN = true →
      (seg.header.syn = true → seg.header.seqno = v.isn) ∧
      ¬ (v.recievedFIN = true ∧ v.reassembler.empty = true ∧
        v.reassembler.OpensGap seg.payload (v.streamIndex seg.header))
  | .read _ => True
  | .pop _ => True

instance (v : TCPReceiver) (op : Op) : Decidable (v.KeepsAckno op) := by
  cases op <;> simp only [KeepsAckno] <;> infer_instance

/-- `v'` has the origin of `v` and acknowledges no less. -/
structure Continues (v v' : TCPReceiver) : Prop where
  recievedSYN : v'.recievedSYN = true
  isn_eq : v'.isn = v.isn
  position_le : v.position ≤ v'.position

theorem Continues.refl (hsyn : v.recievedSYN = true) : Continues v v := ⟨hsyn, rfl, le_refl _⟩

theorem Continues.trans {v' v'' : TCPReceiver} (h : Continues v v') (h' : Continues v' v'') :
    Continues v v'' :=
  ⟨h'.recievedSYN, h'.isn_eq.trans h.isn_eq, h.position_le.trans h'.position_le⟩

theorem continues_step (h : v.reassembler.Settled n) (hn : n + (v.handed op).length < 2 ^ 32)
    (hop : v.InRange op) (hsyn : v.recievedSYN = true) (hkeep : v.KeepsAckno op) :
    Continues v (v.step op) := by
  cases op with
  | segment seg =>
    obtain ⟨horigin, hgap⟩ := hkeep hsyn
    have hlisten : v.Listens seg := Or.inl hsyn
    have hbytes := (settled_step h _ hop hn).bytesWritten_eq
    have hw := h.bytesWritten_eq
    rw [step] at hbytes ⊢
    refine ⟨by rw [segmentReceived_eq hlisten], ?_, ?_⟩
    · rw [segmentReceived_eq hlisten]
      change v.origin seg.header = v.isn
      rw [origin]
      split
      · next hs => exact horigin hs
      · rfl
    · have hle : v.finBit ≤ (v.segmentReceived seg).finBit := by
        by_cases hone : v.finBit = 1
        · obtain ⟨hfin, hnum⟩ := finBit_eq_one_iff.mp hone
          rw [handed, if_pos hlisten] at hn
          have hnum' := h.num_push_eq_zero hn hnum fun hopens =>
            hgap ⟨hfin, by rw [StreamReassembler.empty, hnum]; rfl, hopens⟩
          rw [hone, segmentReceived_eq hlisten]
          refine (finBit_eq_one_iff.mpr ⟨?_, hnum'⟩).ge
          change (v.recievedFIN || seg.header.fin) = true
          rw [hfin, Bool.true_or]
        · have := v.finBit_le
          omega
      rw [position, position]
      change v.reassembler.output.bytesWritten + _ ≤
        (v.segmentReceived seg).reassembler.output.bytesWritten + _
      omega
  | read len => exact ⟨hsyn, rfl, le_refl _⟩
  | pop len => exact ⟨hsyn, rfl, le_refl _⟩

/-- A byte stored behind a gap takes the FIN out of the count. -/
theorem position_of_opensGap (h : v.reassembler.Settled n) {seg : TCPSegment}
    (hn : n + (v.handed (.segment seg)).length < 2 ^ 32) (hlisten : v.Listens seg)
    (hfin : v.recievedFIN = true) (hempty : v.reassembler.empty = true)
    (hgap : v.reassembler.OpensGap seg.payload (v.streamIndex seg.header)) :
    (v.segmentReceived seg).position + 1 = v.position := by
  have hnum : v.reassembler.numUnassembledBytes = 0 := by simpa [StreamReassembler.empty] using hempty
  have hbytes : (v.segmentReceived seg).streamOut.bytesWritten = _ :=
    (settled_step h (.segment seg) trivial hn).bytesWritten_eq
  have hw : v.streamOut.bytesWritten = n := h.bytesWritten_eq
  rw [handed, if_pos hlisten] at hn hbytes
  obtain ⟨hnone, hpending⟩ := h.push_of_opensGap hn hnum hgap
  have hone : v.finBit = 1 := finBit_eq_one_iff.mpr ⟨hfin, hnum⟩
  have hzero : (v.segmentReceived seg).finBit ≠ 1 := by
    rw [segmentReceived_eq hlisten, Ne, finBit_eq_one_iff]
    exact fun hcount => hpending hcount.2
  have hle := (v.segmentReceived seg).finBit_le
  rw [position, position]
  omega

end Step

/-- Once there is an acknowledgment number, the origin stays and the number moves forward by less
than half of the number space. -/
def Forward (v v' : TCPReceiver) : Prop :=
  ∀ a, v.ackno = some a → v'.isn = v.isn ∧ ∃ d < 2 ^ 31, v'.ackno = some (a.add d)

/-- From an acknowledged SYN to the FIN behind `2 ^ 31 - 1` bytes it is just half of the space. -/
def SpansHalf (v v' : TCPReceiver) : Prop :=
  v.recievedSYN = true ∧ v.position = 0 ∧ v'.position = 2 ^ 31

theorem forward_iff {v v' : TCPReceiver} (hsyn : v.recievedSYN = true) :
    Forward v v' ↔ v'.recievedSYN = true ∧ v'.isn = v.isn ∧
      ∃ d < 2 ^ 31, v'.position % 2 ^ 32 = (v.position + d) % 2 ^ 32 := by
  rw [Forward, ackno_eq_position hsyn]
  simp only [Option.some.injEq, forall_eq']
  cases hsyn' : v'.recievedSYN with
  | false => simp [ackno, hsyn']
  | true =>
    rw [ackno_eq_position hsyn']
    simp only [true_and]
    refine and_congr_right fun hisn => exists_congr fun d => and_congr_right fun _ => ?_
    rw [hisn, Option.some.injEq, ← wrap_add, wrap_inj_iff]
    omega

theorem not_forward_of_lt {v v' : TCPReceiver} (hsyn : v.recievedSYN = true)
    (hlt : v'.position < v.position) (hle : v.position ≤ 2 ^ 31) : ¬ Forward v v' := by
  rw [forward_iff hsyn]
  rintro ⟨-, -, d, hd, hstep⟩
  omega

section Run
variable {capacity : ℕ} {v₀ : TCPReceiver} (hnew : new capacity = some v₀)
include hnew

theorem settled_run {ops : List Op} (hops : anySegments.Admits v₀ ops)
    (hlen : (anySegments.collect handed v₀ ops).length < 2 ^ 32) :
    (anySegments.run v₀ ops).reassembler.Settled (anySegments.collect handed v₀ ops).length := by
  refine anySegments.run_induction (P := fun ops =>
    (anySegments.collect handed v₀ ops).length < 2 ^ 32 →
      (anySegments.run v₀ ops).reassembler.Settled
        (anySegments.collect handed v₀ ops).length) ?_ ?_ hops hlen
  · obtain ⟨r, hr, rfl⟩ := new_eq_some hnew
    exact fun _ => settled_new hr
  · intro past op _ hop ih hlt
    rw [Machine.collect_snoc, List.length_append] at hlt ⊢
    rw [Machine.run_snoc]
    exact settled_step (ih (by omega)) op hop hlt

theorem continues_run {early late : List Op}
    (hops : (anySegments.restrict KeepsAckno).Admits v₀ (early ++ late))
    (hlen : (anySegments.collect handed v₀ (early ++ late)).length < 2 ^ 32)
    (hsyn : (anySegments.run v₀ early).recievedSYN = true) :
    Continues (anySegments.run v₀ early) (anySegments.run v₀ (early ++ late)) := by
  induction late using List.reverseRecOn with
  | nil =>
    rw [List.append_nil]
    exact Continues.refl hsyn
  | append_singleton late op ih =>
    rw [← List.append_assoc] at hops hlen ⊢
    obtain ⟨hpast, hop⟩ := (Machine.admits_snoc _ _ _ _).mp hops
    rw [Machine.collect_snoc, List.length_append] at hlen
    have hcont := ih hpast (by omega)
    have hset := settled_run hnew (anySegments.admits_of_restrict hpast) (by omega)
    rw [Machine.run_snoc]
    exact hcont.trans (continues_step hset hlen hop.1 hcont.recievedSYN hop.2)

theorem position_run_le {ops : List Op} (hops : anySegments.Admits v₀ ops)
    (hlen : (anySegments.collect handed v₀ ops).length < 2 ^ 32) :
    (anySegments.run v₀ ops).position ≤ (anySegments.collect handed v₀ ops).length + 1 := by
  have hw : (anySegments.run v₀ ops).streamOut.bytesWritten = _ :=
    (settled_run hnew hops hlen).bytesWritten_eq
  have hbit := (anySegments.run v₀ ops).finBit_le
  rw [position]
  omega

theorem keepsAckno_of_forward {past : List Op} {op : Op} (hpast : anySegments.Admits v₀ past)
    (hlen : (anySegments.collect handed v₀ (past ++ [op])).length < 2 ^ 31)
    (h : Forward (anySegments.run v₀ past) (anySegments.run v₀ (past ++ [op]))) :
    (anySegments.run v₀ past).KeepsAckno op := by
  cases op with
  | segment seg =>
    intro hsyn
    have hlisten : (anySegments.run v₀ past).Listens seg := Or.inl hsyn
    rw [Machine.collect_snoc, List.length_append] at hlen
    have hset := settled_run hnew hpast (by omega)
    rw [Machine.run_snoc] at h
    refine ⟨fun hs => ?_, ?_⟩
    · have hisn := ((forward_iff hsyn).mp h).2.1
      change ((anySegments.run v₀ past).segmentReceived seg).isn = _ at hisn
      rw [segmentReceived_eq hlisten] at hisn
      change origin _ _ = _ at hisn
      rwa [origin, if_pos hs] at hisn
    · rintro ⟨hfin, hempty, hgap⟩
      have hback := position_of_opensGap hset (by omega) hlisten hfin hempty hgap
      have hbound := position_run_le hnew hpast (by omega)
      exact not_forward_of_lt hsyn (Nat.lt_of_succ_le hback.le) (by omega) h
  | read len => trivial
  | pop len => trivial

/-- Over a whole run the origin and the acknowledgment number never move back if and only if no
step moves them back, apart from the one way in which the stream can span half of the space. -/
theorem ackno_forward_iff {ops : List Op} (hops : anySegments.Admits v₀ ops)
    (hlen : (anySegments.collect handed v₀ ops).length < 2 ^ 31) :
    (∀ early late, early ++ late <+: ops →
      Forward (anySegments.run v₀ early) (anySegments.run v₀ (early ++ late))) ↔
    (anySegments.restrict KeepsAckno).Admits v₀ ops ∧ ∀ early late, early ++ late <+: ops →
      ¬ SpansHalf (anySegments.run v₀ early) (anySegments.run v₀ (early ++ late)) := by
  constructor
  · intro hforward
    constructor
    · induction ops using List.reverseRecOn with
      | nil => trivial
      | append_singleton past op ih =>
        obtain ⟨hpast, hop⟩ := (Machine.admits_snoc _ _ _ _).mp hops
        have hle := anySegments.collect_length_le handed v₀ past [op]
        have hrest := ih hpast (by omega) fun early late hpre =>
          hforward early late (hpre.trans (List.prefix_append _ _))
        refine (Machine.admits_snoc _ _ _ _).mpr ⟨hrest, hop, ?_⟩
        exact keepsAckno_of_forward hnew hpast hlen (hforward past [op] List.prefix_rfl)
    · rintro early late hpre ⟨hsyn, hstart, hend⟩
      obtain ⟨-, -, d, hd, hstep⟩ := (forward_iff hsyn).mp (hforward early late hpre)
      omega
  · rintro ⟨hkeep, hspan⟩ early late ⟨rest, rfl⟩ a hack
    have hsyn : (anySegments.run v₀ early).recievedSYN = true := by
      by_contra hno
      rw [ackno, if_neg hno] at hack
      cases hack
    have hle := anySegments.collect_length_le handed v₀ (early ++ late) rest
    obtain ⟨hops', -⟩ := (Machine.admits_append _ _ _ _).mp hops
    obtain ⟨hkeep', -⟩ := (Machine.admits_append _ _ _ _).mp hkeep
    have hcont := continues_run hnew hkeep' (by omega) hsyn
    have hbound := position_run_le hnew hops' (by omega)
    have hhalf := hspan early late (List.prefix_append _ _)
    have hmono := hcont.position_le
    refine (forward_iff hsyn).mpr ⟨hcont.recievedSYN, hcont.isn_eq,
      (anySegments.run v₀ (early ++ late)).position - (anySegments.run v₀ early).position,
      ?_, ?_⟩ a hack
    · by_contra hfar
      exact hhalf ⟨hsyn, by omega, by omega⟩
    · rw [Nat.add_sub_cancel' hmono]

/-- A stream that leaves a number to spare never spans half of the space. -/
theorem not_spansHalf_of_lt {ops : List Op} (hops : anySegments.Admits v₀ ops)
    (hlen : (anySegments.collect handed v₀ ops).length + 1 < 2 ^ 31) {early late : List Op}
    (hpre : early ++ late <+: ops) :
    ¬ SpansHalf (anySegments.run v₀ early) (anySegments.run v₀ (early ++ late)) := by
  obtain ⟨rest, rfl⟩ := hpre
  rintro ⟨-, -, hend⟩
  have hle := anySegments.collect_length_le handed v₀ (early ++ late) rest
  have hbound := position_run_le hnew ((Machine.admits_append _ _ _ _).mp hops).1 (by omega)
  omega

end Run

theorem ackno_forward_in_order :
    ∃ v₀, new 4 = some v₀ ∧ ∀ early late, early ++ late <+:
      [.segment { header := { seqno := ⟨9⟩, syn := true } },
       .segment { header := { seqno := ⟨10⟩ }, payload := [7] }, .read 1,
       .segment { header := { seqno := ⟨9⟩, syn := true } },
       .segment { header := { seqno := ⟨11⟩, fin := true }, payload := [8] }] →
      Forward (anySegments.run v₀ early) (anySegments.run v₀ (early ++ late)) := by
  refine ⟨_, rfl, (ackno_forward_iff (show new 4 = some _ from rfl) (by decide) (by decide)).mpr
    ⟨by decide, ?_⟩⟩
  exact fun early late => not_spansHalf_of_lt (show new 4 = some _ from rfl) (by decide) (by decide)

/-- The two bytes of a stream and its FIN arrive in the opposite order: the FIN is counted while
nothing is pending, and no longer when the second byte comes. -/
theorem ackno_moves_back :
    ∃ v₀, new 4 = some v₀ ∧
      anySegments.Admits v₀ [.segment { header := { seqno := ⟨9⟩, syn := true } },
        .segment { header := { seqno := ⟨12⟩, fin := true } },
        .segment { header := { seqno := ⟨11⟩ }, payload := [8] }] ∧
      (anySegments.run v₀ [.segment { header := { seqno := ⟨9⟩, syn := true } },
        .segment { header := { seqno := ⟨12⟩, fin := true } }]).ackno = some ⟨11⟩ ∧
      (anySegments.run v₀ [.segment { header := { seqno := ⟨9⟩, syn := true } },
        .segment { header := { seqno := ⟨12⟩, fin := true } },
        .segment { header := { seqno := ⟨11⟩ }, payload := [8] }]).ackno = some ⟨10⟩ ∧
      ¬ Forward
        (anySegments.run v₀ [.segment { header := { seqno := ⟨9⟩, syn := true } },
          .segment { header := { seqno := ⟨12⟩, fin := true } }])
        (anySegments.run v₀ [.segment { header := { seqno := ⟨9⟩, syn := true } },
          .segment { header := { seqno := ⟨12⟩, fin := true } },
          .segment { header := { seqno := ⟨11⟩ }, payload := [8] }]) := by
  exact ⟨_, rfl, by decide, by decide, by decide,
    not_forward_of_lt (by decide) (by decide) (by decide)⟩

end TCPReceiver
end Sponge
