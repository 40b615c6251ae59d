import Sponge.Acknowledgments

/-!
# No acknowledged byte is missing

The acknowledgment number is exact as long as every FIN is taken in order, and
the bytes behind a FIN are never sent. Under these two conditions every byte
that a sender regards as acknowledged has been written at the other side.
-/
namespace Sponge
open TCPSender TCPConnection TCPSegment

namespace TCPReceiver
variable {v : TCPReceiver} {seg : TCPSegment}

theorem recievedFIN_segmentReceived (h : (v.segmentReceived seg).recievedFIN = true) :
    v.recievedFIN = true ∨ seg.header.fin = true := by
  by_cases hlisten : v.Listens seg
  · cases hfin : seg.header.fin with
    | true => exact Or.inr rfl
    | false =>
      left
      have hgate : (!v.recievedSYN && !seg.header.syn) = false := by
        rcases hlisten with hs | hs <;> simp [hs]
      rw [segmentReceived, hgate] at h
      simp only [Bool.false_eq_true, if_false, noteFlags, hfin] at h
      split at h <;> exact h
  · rw [segmentReceived_of_not_listens hlisten] at h
    exact Or.inl h

end TCPReceiver

namespace Network

/-- What the acknowledgment number of an exact receiver covers. -/
def ackLimit (v : TCPReceiver) : ℕ :=
  1 + v.streamOut.bytesWritten + if v.streamOut.inputEnded then 1 else 0

/-- In the direction from `x`, a FIN is taken only when it ends inside the window, and on its own
only behind the last byte; and `x` accepts no byte behind its own FIN. -/
def InOrder (x : Side) (net : Net) : Side × TCPConnection.Op → Prop
  | (z, .segmentReceived seg) => z = x.other → seg.header.fin = true → (net z).Takes seg →
      (net z).receiver.Listens seg →
      (net x).sender.nextSeqno - 2 ≤ (net z).receiver.reassembler.windowEnd ∧
      (seg.payload = [] → (net x).sender.nextSeqno - 2 = 0 ∨
        (net z).receiver.reassembler.Holds ((net x).sender.nextSeqno - 2 - 1))
  | (z, .write data) => z = x → (net x).sender.fin = true →
      (net x).sender.stream.writeSize data = 0
  | _ => True

instance (r : StreamReassembler) (k : ℕ) : Decidable (r.Holds k) :=
  inferInstanceAs (Decidable (_ ∨ _))

instance (x : Side) (net : Net) : ∀ e, Decidable (InOrder x net e)
  | (_, .segmentReceived _) => inferInstanceAs (Decidable (_ → _ → _ → _ → _))
  | (_, .write _) => inferInstanceAs (Decidable (_ → _ → _))
  | (_, .tick _) => .isTrue trivial
  | (_, .endInputStream) => .isTrue trivial
  | (_, .connect) => .isTrue trivial
  | (_, .read _) => .isTrue trivial
  | (_, .pop _) => .isTrue trivial

/-- The end of the stream at `y` agrees with what `x` sent. -/
structure Faithful (tiles : List OrderedSegment) (x y : TCPConnection) : Prop where
  ends : ∃ arrived, TCPReceiver.FinAgrees (payloads tiles) arrived y.receiver
  late : y.receiver.recievedFIN = true → x.sender.fin = true
  finished : x.sender.Finished

section Step
variable {W W' taken : List Byte} {tiles tiles' : List OrderedSegment} {x y : TCPConnection}
  {op : TCPConnection.Op}

theorem Faithful.send (h : Faithful tiles x y) {more : List OrderedSegment}
    (hmore : x.sender.fin = true → more = [] ∧ (x.step op).sender.fin = true)
    (hfinished : (x.step op).sender.Finished) : Faithful (tiles ++ more) (x.step op) y := by
  obtain ⟨arrived, hends⟩ := h.ends
  refine ⟨⟨arrived, ?_⟩, ?_, hfinished⟩
  · cases hfin : y.receiver.recievedFIN with
    | true =>
      rw [(hmore (h.late hfin)).1, List.append_nil]
      exact hends
    | false => exact hends.of_silent hfin _
  · intro hfin
    exact (hmore (h.late hfin)).2

/-- A FIN on the network was sent, and its segment ends the stream. -/
theorem Channel.fin_ends (h : Channel W taken tiles x y) {seg : TCPSegment}
    {t : OrderedSegment} (ht : t ∈ tiles) (hcopy : seg.Copies t.seg)
    (hfin : seg.header.fin = true) :
    x.sender.fin = true ∧ (payloads tiles).length = x.sender.nextSeqno - 2 ∧
      t.absSeqno - 1 + seg.payload.length = (payloads tiles).length := by
  have hist := h.drives.history
  rw [hcopy.fin_eq] at hfin
  obtain ⟨hset, hend⟩ := hist.fin_last t ht hfin
  have hsyn := hist.syn_of_fin hset
  have hnext := hist.next_eq hsyn
  rw [hset, if_pos rfl] at hnext
  obtain ⟨rest, hrest, hdata⟩ := hist.opened hsyn
  have hplain : t.seg.header.syn = false := by
    rw [hrest] at ht
    rcases List.mem_cons.mp ht with rfl | ht
    · cases hfin
    · exact (hdata t ht).1
  have hlength : t.length = t.seg.payload.length + 0 + 1 := by
    rw [OrderedSegment.length, TCPSegment.lengthInSequenceSpace, hplain, hfin]
    rfl
  rw [hcopy.payload_eq]
  refine ⟨hset, by omega, ?_⟩
  have hpos : 1 ≤ t.absSeqno := by
    by_contra hzero
    have hslice := (hist.carries t ht).isSlice.end_le
    omega
  omega

theorem Faithful.segmentReceived (h : Faithful tiles x y) (hchannel : Channel W taken tiles x y)
    (hS : (payloads tiles).length < 2 ^ 31 - 2) {seg : TCPSegment} (hseg : seg ∈ x.segmentsOut)
    (hcond : seg.header.fin = true → y.receiver.Listens seg →
      x.sender.nextSeqno - 2 ≤ y.receiver.reassembler.windowEnd ∧
      (seg.payload = [] → x.sender.nextSeqno - 2 = 0 ∨
        y.receiver.reassembler.Holds (x.sender.nextSeqno - 2 - 1))) :
    (∃ arrived, TCPReceiver.FinAgrees (payloads tiles) arrived (y.receiver.segmentReceived seg)) ∧
      ((y.receiver.segmentReceived seg).recievedFIN = true → x.sender.fin = true) := by
  obtain ⟨arrived, hends⟩ := h.ends
  rcases hchannel.drives.emitted seg hseg with ⟨t, ht, hcopy⟩ | hblank
  · have hcarries := hcopy.carries (hchannel.drives.history.carries t ht)
    refine ⟨⟨_, hends.segmentReceived hchannel.agrees hS hcarries ?_ ?_⟩, ?_⟩
    · intro hfin
      exact (hchannel.fin_ends ht hcopy hfin).2.2
    · intro hfin hlisten
      obtain ⟨-, hcount, -⟩ := hchannel.fin_ends ht hcopy hfin
      obtain ⟨hwindow, hbehind⟩ := hcond hfin hlisten
      rw [hcount]
      refine ⟨hwindow, ?_⟩
      intro hdata
      refine (hbehind hdata).imp_left ?_
      intro hzero
      exact List.length_eq_zero_iff.mp (hcount.trans hzero)
    · intro hfin
      rcases TCPReceiver.recievedFIN_segmentReceived hfin with hold | hnew
      · exact h.late hold
      · exact (hchannel.fin_ends ht hcopy hnew).1
  · refine ⟨⟨arrived, ?_⟩, ?_⟩
    · exact (hchannel.agrees.segmentReceived_blank (by omega) hblank.payload_eq
        hblank.syn_eq hblank.fin_eq).2 arrived hends
    · intro hfin
      rcases TCPReceiver.recievedFIN_segmentReceived hfin with hold | hnew
      · exact h.late hold
      · rw [hblank.fin_eq] at hnew
        cases hnew

theorem Faithful.receive (h : Faithful tiles x y) (hchannel : Channel W taken tiles x y)
    (hlen : W.length < 2 ^ 31 - 2) (hseg : ∀ seg, op = .segmentReceived seg → seg ∈ x.segmentsOut)
    (hpop : ∀ len, op = .pop len → len ≤ y.inboundStream.bufferSize)
    (hcond : ∀ seg, op = .segmentReceived seg → seg.header.fin = true → y.Takes seg →
      y.receiver.Listens seg →
      x.sender.nextSeqno - 2 ≤ y.receiver.reassembler.windowEnd ∧
      (seg.payload = [] → x.sender.nextSeqno - 2 = 0 ∨
        y.receiver.reassembler.Holds (x.sender.nextSeqno - 2 - 1))) :
    Faithful tiles x (y.step op) := by
  have hS := hchannel.sent_isPrefix.length_le.trans_lt hlen
  obtain ⟨arrived, hends⟩ := h.ends
  have hboth : (∃ arrived, TCPReceiver.FinAgrees (payloads tiles) arrived (y.step op).receiver) ∧
      ((y.step op).receiver.recievedFIN = true → x.sender.fin = true) := by
    refine step_receiver (I := fun v =>
      (∃ arrived, TCPReceiver.FinAgrees (payloads tiles) arrived v) ∧
        (v.recievedFIN = true → x.sender.fin = true)) ?_ ?_
    · rintro v ⟨⟨arrived, hv⟩, hlate⟩
      exact ⟨⟨arrived, hv.setError⟩, hlate⟩
    · cases op with
      | segmentReceived seg =>
        rcases y.prelude_receiver seg with ⟨-, heq⟩ | ⟨htakes, heq⟩
        · rw [heq]
          exact ⟨h.ends, h.late⟩
        · rw [heq]
          exact h.segmentReceived hchannel hS (hseg seg rfl) fun hfin =>
            hcond seg rfl hfin htakes
      | read len =>
        refine ⟨⟨_, hends.step hchannel.agrees hS
          (show TCPReceiver.Enabled x.sender.isn (payloads tiles) y.receiver (.read len)
            from trivial) trivial⟩, h.late⟩
      | pop len =>
        refine ⟨⟨_, hends.step hchannel.agrees hS
          (show TCPReceiver.Enabled x.sender.isn (payloads tiles) y.receiver (.pop len)
            from hpop len rfl) trivial⟩, h.late⟩
      | write data => exact ⟨h.ends, h.late⟩
      | tick ms => exact ⟨h.ends, h.late⟩
      | endInputStream => exact ⟨h.ends, h.late⟩
      | connect => exact ⟨h.ends, h.late⟩
  exact ⟨hboth.1, hboth.2, h.finished⟩

theorem ackLimit_le_step {isn : WrappingInt32} {S : List Byte}
    (h : TCPReceiver.Agrees isn S taken y.receiver) (hS : S.length < 2 ^ 31 - 2)
    (hfair : Fair isn S y op) : ackLimit y.receiver ≤ ackLimit (y.step op).receiver := by
  obtain ⟨hmore, hended⟩ := receiver_mono h hS hfair
  change y.receiver.streamOut.bytesWritten ≤ (y.step op).receiver.streamOut.bytesWritten at hmore
  simp only [ackLimit]
  split
  · next hset =>
    have hstill : (y.step op).receiver.streamOut.inputEnded = true := hended hset
    rw [if_pos hstill]
    omega
  · omega

theorem Faithful.ackno_eq {isn ackno : WrappingInt32} (h : Faithful tiles x y)
    (hagrees : TCPReceiver.Agrees isn (payloads tiles) taken y.receiver)
    (hack : y.receiver.ackno = some ackno) : ackno = wrap (ackLimit y.receiver) isn := by
  obtain ⟨arrived, hends⟩ := h.ends
  rw [ackLimit, ← hends.finBit_eq hagrees]
  exact ackno_bound hagrees hack

/-- What is acknowledged is written: only a FIN lies behind the bytes of an ended stream. -/
theorem Acked.written_of_acknowledged
    (h : Acked (ackLimit y.receiver) W W' taken tiles tiles' x y) (hf : Faithful tiles x y) {i : ℕ}
    (hi : i < W.length) (hack : 1 + i < x.sender.checkpoint) :
    i < y.inboundStream.bytesWritten := by
  have hcp := h.checkpoint_le
  rw [ackLimit] at hcp
  change _ ≤ 1 + y.inboundStream.bytesWritten + _ at hcp
  cases hended : y.receiver.streamOut.inputEnded with
  | false =>
    rw [hended] at hcp
    simp only [Bool.false_eq_true, if_false] at hcp
    omega
  | true =>
    obtain ⟨arrived, hends⟩ := hf.ends
    obtain ⟨hreceived, hall⟩ := hends.ends.ended_iff.mp hended
    have hfin := hf.late (hends.flag_eq.trans hreceived)
    have hsent := h.channel.drives.history.sent_eq
    rw [(hf.finished hfin).2, List.append_nil] at hsent
    rw [← hsent, ← hall] at hi
    exact hi

/-- A tile that is no longer in flight is acknowledged to its end. -/
theorem end_le_of_not_in_flight {Q : WrappingInt32 → Prop} (h : Drives Q W tiles x)
    {t : OrderedSegment} (ht : t ∈ tiles) (hgone : t ∉ x.sender.segmentsInFlight) :
    t.absSeqno + t.length ≤ x.sender.checkpoint := by
  obtain ⟨done, hdone⟩ := h.history.outstanding
  obtain ⟨start, hout⟩ := h.sound.outstanding
  have hcover := h.history.cover
  rw [← hdone] at hcover ht
  obtain ⟨m, hfirst, hsecond⟩ := Tiles.append_iff.mp hcover
  have hstart := hsecond.start_eq hout.tiles
  have hle := hout.start_le
  rcases List.mem_append.mp ht with ht | ht
  · have hend := (hfirst.bounds ht).2
    omega
  · exact absurd ht hgone

end Step

section Run
variable {W W' taken : List Byte} {tiles tiles' : List OrderedSegment} {net : Net} {x : Side}
  {e : Side × TCPConnection.Op}

theorem Acked.step_faithful
    (h : Acked (ackLimit (net x.other).receiver) W W' taken tiles tiles' (net x) (net x.other))
    (hf : Faithful tiles (net x) (net x.other)) (hen : Enabled net e) (hcond : InOrder x net e)
    (hlen : (W ++ accepted x net e).length < 2 ^ 31 - 2)
    (hlen' : (W' ++ accepted x.other net e).length < 2 ^ 31 - 2) :
    ∃ more more', Acked (ackLimit (machine.step net e x.other).receiver)
        (W ++ accepted x net e) (W' ++ accepted x.other net e)
        (taken ++ readOut x.other net e) (tiles ++ more) (tiles' ++ more')
        (machine.step net e x) (machine.step net e x.other) ∧
      Faithful (tiles ++ more) (machine.step net e x) (machine.step net e x.other) := by
  have hshort : W.length < 2 ^ 31 - 2 := by
    rw [List.length_append] at hlen
    omega
  have hlimit : ackLimit (net x.other).receiver < 2 ^ 31 := by
    have hwritten := h.written_lt hshort
    change (net x.other).receiver.streamOut.bytesWritten + 2 < 2 ^ 31 at hwritten
    rw [ackLimit]
    split <;> omega
  obtain ⟨z, op⟩ := e
  rcases step_cases net x (z, op) with
    ⟨hside, hx, hy, hacc, hacc', hread⟩ | ⟨hside, hx, hy, hacc, hacc', hread⟩
  · rw [hx, hy, hacc', hread, List.append_nil, List.append_nil]
    rw [hacc] at hlen ⊢
    obtain ⟨more, hmore, hfinished⟩ := h.send (le_refl _) hlimit hlen
      (segment_mem_of_enabled hen hside)
    refine ⟨more, [], ?_, hf.send hfinished ?_⟩
    · rw [List.append_nil]
      exact hmore
    · apply finished_step hf.finished h.channel.drives.sound.stream_wf
      intro data hop hfin
      change op = .write data at hop
      subst hop
      exact hcond hside hfin
  · rw [hx, hy, hread]
    rw [hacc, List.append_nil] at hlen ⊢
    rw [hacc'] at hlen' ⊢
    have hfair := h.channel.fair hen hside
    have hS := h.channel.sent_isPrefix.length_le.trans_lt hlen
    have hagrees := agrees_step h.channel.agrees hS hfair
    change z = x.other at hside
    subst hside
    have hf' : Faithful tiles (net x) ((net x.other).step op) := by
      apply hf.receive h.channel hlen
      · intro seg hop
        have hmem := segment_mem_of_enabled hen rfl seg hop
        rwa [Side.other_other] at hmem
      · intro len hop
        subst hop
        exact hen
      · intro seg hop
        subst hop
        exact hcond rfl
    have hle := ackLimit_le_step h.channel.agrees hS hfair
    obtain ⟨more, hmore⟩ := h.receive hle hlen hlen' hfair
      fun _ hack => ⟨_, le_refl _, hf'.ackno_eq hagrees hack⟩
    refine ⟨[], more, ?_, ?_⟩
    · rw [List.append_nil]
      exact hmore
    · rw [List.append_nil]
      exact hf'

variable {cfg : Side → TCPConfig} {random : Side → WrappingInt32} {net₀ : Net}
  {events : List (Side × TCPConnection.Op)}

theorem faithful_run (hnew : ∀ z, TCPConnection.new (cfg z) (random z) = some (net₀ z))
    (hrun : (machine.restrict (InOrder x)).Admits net₀ events)
    (hlen : ∀ z, (machine.collect (accepted z) net₀ events).length < 2 ^ 31 - 2) :
    ∃ tiles tiles', Acked (ackLimit (machine.run net₀ events x.other).receiver)
        (machine.collect (accepted x) net₀ events)
        (machine.collect (accepted x.other) net₀ events)
        (machine.collect (readOut x.other) net₀ events) tiles tiles'
        (machine.run net₀ events x) (machine.run net₀ events x.other) ∧
      Faithful tiles (machine.run net₀ events x) (machine.run net₀ events x.other) := by
  revert hlen
  refine (machine.restrict (InOrder x)).run_induction (P := fun events =>
    (∀ z, (machine.collect (accepted z) net₀ events).length < 2 ^ 31 - 2) →
    ∃ tiles tiles', Acked (ackLimit (machine.run net₀ events x.other).receiver)
        (machine.collect (accepted x) net₀ events)
        (machine.collect (accepted x.other) net₀ events)
        (machine.collect (readOut x.other) net₀ events) tiles tiles'
        (machine.run net₀ events x) (machine.run net₀ events x.other) ∧
      Faithful tiles (machine.run net₀ events x) (machine.run net₀ events x.other)) ?_ ?_ hrun
  · intro _
    obtain ⟨hfinished, hzero⟩ := finished_new (hnew x)
    obtain ⟨hagrees, hends⟩ := (drives_new (hnew x.other) (fun _ => True)).2
      (net₀ x).sender.isn []
    refine ⟨[], [], ⟨⟨(drives_new (hnew x) _).1, hagrees⟩, (drives_new (hnew x.other) _).1, ?_⟩,
      ⟨False, hends⟩, ?_, hfinished⟩
    · exact hzero ▸ Nat.zero_le _
    · intro hfin
      have hrec := hends.ends.received_iff.mp (hends.flag_eq ▸ hfin)
      exact hrec.elim
  · intro past e _ hen ih hlen
    obtain ⟨tiles, tiles', h, hf⟩ :=
      ih fun z => (machine.collect_length_le _ _ _ _).trans_lt (hlen z)
    simp only [Machine.collect_snoc, Machine.run_snoc] at hlen ⊢
    obtain ⟨more, more', hmore⟩ := h.step_faithful hf hen.1 hen.2 (hlen x) (hlen x.other)
    exact ⟨tiles ++ more, tiles' ++ more', hmore⟩

end Run

/-- In every run that takes each FIN in order and accepts no byte behind it, every acknowledged
byte has been written at the other side, and so has every byte of a segment that is dropped
from the queue of segments in flight. -/
theorem acknowledged_bytes_are_written {cfg : Side → TCPConfig} {random : Side → WrappingInt32}
    {net₀ : Net} (hnew : ∀ z, TCPConnection.new (cfg z) (random z) = some (net₀ z)) {x : Side}
    {events : List (Side × TCPConnection.Op)}
    (hrun : (machine.restrict (InOrder x)).Admits net₀ events)
    (hlen : ∀ z, (machine.collect (accepted z) net₀ events).length < 2 ^ 31 - 2) :
    (∀ i < (machine.collect (accepted x) net₀ events).length,
      1 + i < (machine.run net₀ events x).sender.checkpoint →
      i < (machine.run net₀ events x.other).inboundStream.bytesWritten) ∧
    ∀ past e, past ++ [e] <+: events →
      ∀ t ∈ (machine.run net₀ past x).sender.segmentsInFlight,
        t ∉ (machine.run net₀ (past ++ [e]) x).sender.segmentsInFlight →
        ∀ k, t.absSeqno ≤ 1 + k → 1 + k < t.absSeqno + t.seg.payload.length →
          k < (machine.run net₀ (past ++ [e]) x.other).inboundStream.bytesWritten := by
  refine ⟨?_, ?_⟩
  · intro i hi hack
    obtain ⟨tiles, tiles', h, hf⟩ := faithful_run hnew hrun hlen
    exact h.written_of_acknowledged hf hi hack
  · rintro past e ⟨rest, rfl⟩ t ht hgone k hlo hhi
    obtain ⟨hsnoc, -⟩ := (Machine.admits_append _ _ _ _).mp hrun
    obtain ⟨hpast, hen⟩ := (Machine.admits_snoc _ _ _ _).mp hsnoc
    have hlen₁ : ∀ z, (machine.collect (accepted z) net₀ (past ++ [e])).length < 2 ^ 31 - 2 :=
      fun z => (machine.collect_length_le _ _ _ _).trans_lt (hlen z)
    obtain ⟨tiles, tiles', h, hf⟩ := faithful_run hnew hpast
      fun z => (machine.collect_length_le _ _ _ _).trans_lt (hlen₁ z)
    simp only [Machine.collect_snoc] at hlen₁
    obtain ⟨more, more', hmore, hf'⟩ := h.step_faithful hf hen.1 hen.2 (hlen₁ x) (hlen₁ x.other)
    rw [Machine.run_snoc] at hgone ⊢
    have hdrives := hmore.channel.drives
    have hmem : t ∈ tiles ++ more :=
      List.mem_append_left _ (h.channel.drives.history.outstanding.subset ht)
    have hend := end_le_of_not_in_flight hdrives hmem hgone
    have hslice := (hdrives.history.carries t hmem).isSlice.end_le
    have hsent := hmore.channel.sent_isPrefix.length_le
    have hlength : t.seg.payload.length ≤ t.length := by
      rw [OrderedSegment.length, TCPSegment.lengthInSequenceSpace]
      omega
    exact hmore.written_of_acknowledged hf' (by omega) (by omega)

/-- Side A sends a byte and its FIN, and both arrive in order. -/
def finInOrder : List (Side × TCPConnection.Op) :=
  handshake ++ [(.A, .write [7]),
    (.B, .segmentReceived { header := acked 6 101 4, payload := [7] }),
    (.A, .endInputStream),
    (.B, .segmentReceived { header := { acked 7 101 4 with fin := true } }),
    (.A, .segmentReceived { header := acked 101 8 3 })]

theorem acknowledged_bytes_are_written_in_order :
    (machine.restrict (InOrder .A)).Admits smallNet finInOrder ∧
      (machine.run smallNet finInOrder .A).sender.checkpoint = 3 ∧
      ∀ i < (machine.collect (accepted .A) smallNet finInOrder).length,
        1 + i < (machine.run smallNet finInOrder .A).sender.checkpoint →
        i < (machine.run smallNet finInOrder .B).inboundStream.bytesWritten :=
  ⟨by decide +kernel, by decide +kernel, (acknowledged_bytes_are_written (x := .A) smallNet_new
    (show (machine.restrict (InOrder .A)).Admits smallNet finInOrder by decide +kernel)
    (fun z => by cases z <;> decide +kernel)).1⟩

/-- Side A sends a byte and its FIN, and the network delivers only the FIN. -/
def finOvertakes : List (Side × TCPConnection.Op) :=
  handshake ++ [(.A, .write [7]), (.A, .endInputStream),
    (.B, .segmentReceived { header := { acked 7 101 4 with fin := true } }),
    (.A, .segmentReceived { header := acked 101 7 4 })]

/-- The byte that a FIN overtook is acknowledged, and dropped by its sender, without having
been written. -/
theorem acknowledged_byte_missing :
    machine.Admits smallNet finOvertakes ∧
      machine.collect (accepted .A) smallNet finOvertakes = [7] ∧
      (machine.run smallNet finOvertakes .A).sender.checkpoint = 2 ∧
      (machine.run smallNet finOvertakes .B).inboundStream.bytesWritten = 0 ∧
      (∀ t ∈ (machine.run smallNet finOvertakes .A).sender.segmentsInFlight,
        t.seg.payload = []) ∧
      ¬ ∀ i < (machine.collect (accepted .A) smallNet finOvertakes).length,
        1 + i < (machine.run smallNet finOvertakes .A).sender.checkpoint →
        i < (machine.run smallNet finOvertakes .B).inboundStream.bytesWritten := by
  decide +kernel

end Network
end Sponge
