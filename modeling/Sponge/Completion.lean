import Sponge.AcknowledgedBytes
import Sponge.EmittedSegments
import Sponge.EndedInput

/-!
# Every transfer can be completed

From every state two endpoints reach, while neither is in error, some run of deliveries and reads
alone hands over everything that was written: no state is a dead end. The argument is a strategy for
the network. Bytes that have left a sender are in a segment on the network, so they can be delivered
as soon as the reader has made room. The answer to the last of them acknowledges everything, and
opens the window by a byte at least, so the sender goes on.
-/
namespace Sponge
open MachineWords TCPSender TCPSegment

namespace TCPSegment

/-- A segment as it stands in a sender's queue. -/
structure Bare (seg : TCPSegment) : Prop where
  ack_eq : seg.header.ack = false
  rst_eq : seg.header.rst = false

end TCPSegment

theorem TCPSender.TileStep.bare {s t : TCPSender} {seg : TCPSegment} (h : TileStep s seg t) :
    (s.stamp seg).Bare := by
  cases h <;> exact ⟨rfl, rfl⟩

/-- An acknowledgment of everything sent lets the sender go on, whatever window it advertises. -/
theorem TCPSender.Sound.resumes {s : TCPSender} (h : Sound s) (hfin : s.fin = false)
    (hpending : s.hasPending = true) {ackno : WrappingInt32}
    (hackno : unwrap ackno s.isn s.checkpoint = s.nextSeqno) (win : UInt16) :
    s.nextSeqno < (s.ackReceived ackno win).fillWindow.nextSeqno := by
  have hopen : ∀ t : TCPSender, Sound t → t.checkpoint = t.nextSeqno → t.remainingWindow ≠ 0 := by
    intro t ht hcp
    have hrwnd := ht.rwnd_lt
    rw [remainingWindow, hcp, Nat.sub_self, subMod_zero_right]
    · split <;> omega
    · split <;> omega
  have hwin : Sound { s with rwnd := win.toNat } := h.rwnd_congr win
  obtain ⟨start, hout⟩ := h.outstanding
  have hle := hout.checkpoint_le
  rcases s.ackReceived_cases ackno win with ⟨heq, hold⟩ | ⟨heq, hlo, hhi⟩
  · have hcp : s.checkpoint = s.nextSeqno := by omega
    rw [heq]
    exact hwin.fillWindow_sends hfin hpending (hopen _ hwin hcp)
  · have hacked := hwin.acknowledge hlo hhi
    rw [heq]
    generalize hs : ({ s with rwnd := win.toNat } : TCPSender).acknowledge
      (unwrap ackno s.isn s.checkpoint) = t at hacked ⊢
    rw [acknowledge_eq] at hs
    have hfirst : t.nextSeqno < t.fillWindow.nextSeqno := by
      refine hacked.fillWindow_sends ?_ ?_ (hopen t hacked ?_)
      · rw [← hs]
        exact hfin
      · rw [← hs]
        exact hpending
      · rw [← hs]
        exact hackno
    have hnext : t.nextSeqno = s.nextSeqno := by rw [← hs]
    obtain ⟨tiles, hfills⟩ := t.fillWindow.fillWindow_fills
    have hmore := (hfills.tiles hacked.fillWindow).le
    omega

theorem StreamReassembler.pushSubstring_capacity (r : StreamReassembler) (data : List Byte)
    (index : ℕ) (eof : Bool) : (r.pushSubstring data index eof).capacity = r.capacity := by
  have hlatch : (r.latchEOF data index eof).capacity = r.capacity := by
    rw [latchEOF]
    split <;> rfl
  have hloop : ∀ (n : ℕ) (r : StreamReassembler) (first it : ℕ),
      (createLoop first index data r it n).capacity = r.capacity := by
    intro n
    induction n with
    | zero => exact fun _ _ _ => rfl
    | succ n ih =>
      intro r first it
      rw [createLoop, ih, createStep]
      split <;> rfl
  have hwrite : ∀ r : StreamReassembler, r.writeSegment.endOutput.capacity = r.capacity := by
    intro r
    rw [endOutput]
    split <;> rfl
  rw [pushSubstring, hwrite, createSegment]
  split
  · exact hlatch
  · rw [hloop, hlatch]

section Receiver
namespace TCPReceiver
variable {isn : WrappingInt32} {S taken : List Byte} {v : TCPReceiver} {seg : TCPSegment} {i : ℕ}

/-- A segment that has the next byte, and finds room for it, moves the receiver on. -/
theorem Agrees.bytesWritten_lt (h : Agrees isn S taken v) (hS : S.length < 2 ^ 31 - 2)
    (hseg : seg.Carries isn S i) (hlisten : v.Listens seg) (hlo : i ≤ v.streamOut.bytesWritten)
    (hhi : v.streamOut.bytesWritten < i + seg.payload.length)
    (hroom : v.streamOut.bytesWritten < v.reassembler.windowEnd) :
    v.streamOut.bytesWritten < (v.segmentReceived seg).streamOut.bytesWritten := by
  have hpushed := h.represents.toFilled.pushSubstring (by omega) (Or.inr hseg.isSlice)
    seg.header.fin
  rw [segmentReceived_of_carries hseg hlisten h.isn_eq hS h.represents.bytesWritten_le]
  refine lt_of_le_of_ne hpushed.bytesWritten_le fun hsame => ?_
  have hholds := (hpushed.holds_iff v.streamOut.bytesWritten).mpr (Or.inr ⟨hlo, hhi, hroom⟩)
  rw [hsame] at hholds
  exact hpushed.represents.not_holds_bytesWritten hholds

/-- The FIN behind the last byte ends the stream. -/
theorem Agrees.ended_of_fin (h : Agrees isn S taken v) (hS : S.length < 2 ^ 31 - 2)
    (hseg : seg.Carries isn S i) (hlisten : v.Listens seg) (hfin : seg.header.fin = true)
    (hend : i + seg.payload.length = S.length) (hall : v.streamOut.bytesWritten = S.length) :
    (v.segmentReceived seg).streamOut.inputEnded = true := by
  have hpushed := h.represents.toFilled.pushSubstring (by omega) (Or.inr hseg.isSlice)
    seg.header.fin
  have hle := hpushed.bytesWritten_le
  have hmax := hpushed.represents.bytesWritten_le
  have hwritten := h.represents.bytesWritten_eq
  have hread := h.represents.bytesRead_eq
  have hbuffer := (h.represents.sized (by omega)).end_le
  have hsize : v.reassembler.output.bytesWritten = S.length := hall
  have hwindow : i + seg.payload.length ≤ v.reassembler.windowEnd := by
    rw [StreamReassembler.windowEnd]
    omega
  have hlatched := hpushed.receivedEOF_eq
  rw [h.represents.toFilled.receivedEOF_latchEOF (by omega) (by omega), hfin,
    decide_eq_true hwindow, Bool.and_self, Bool.or_true] at hlatched
  have hnone := hpushed.represents.num_eq_zero_of_complete (by omega)
  rw [hfin] at hnone
  rw [segmentReceived_of_carries hseg hlisten h.isn_eq hS h.represents.bytesWritten_le]
  have hended := hpushed.ended_eq
  rw [hfin, hlatched, hnone] at hended
  change (v.reassembler.pushSubstring seg.payload i seg.header.fin).output.isInputEnded = true
  rw [hfin, hended]
  simp

end TCPReceiver
end Receiver

namespace TCPConnection

/-- What holds of an endpoint between calls. Its SYN is out as soon as it has done anything, and no
reset is out unless it is in error. -/
structure Engaged (c : TCPConnection) : Prop where
  bare : c.sender.Only Bare
  emptied : c.Emptied
  opened : c.sentSYN = c.sender.syn
  answered : c.receiver.recievedSYN = true → c.sentSYN = true
  fresh : c.sentSYN = false → c.segmentsOut = [] ∧ c.sender.stream.contents = [] ∧
    c.sender.stream.isInputEnded = false
  intact : c.sender.stream.error = false → ∀ seg ∈ c.segmentsOut, seg.header.rst = false

section Engaged
variable {c : TCPConnection} {op : Op}

theorem sendSegments_opened (c : TCPConnection) (setRst : Bool) :
    (c.sendSegments setRst).sentSYN = true ∧ (c.sendSegments setRst).sender.syn = true := by
  refine ⟨?_, ?_⟩
  · rw [sendSegments, cleanShutdown_eq]
    rfl
  · rw [(c.sendSegments_eq setRst).1]
    exact c.sender.fillWindow_syn

/-- `d` comes from `c` without sending: only its receiver's stream, its timers and its errors may
differ. -/
structure Rests (c d : TCPConnection) : Prop where
  sentSYN_eq : d.sentSYN = c.sentSYN
  syn_eq : d.sender.syn = c.sender.syn
  recievedSYN_eq : d.receiver.recievedSYN = c.receiver.recievedSYN
  segmentsOut_eq : d.segmentsOut = c.segmentsOut
  contents_eq : d.sender.stream.contents = c.sender.stream.contents
  ended_eq : d.sender.stream.isInputEnded = c.sender.stream.isInputEnded

theorem step_opened (c : TCPConnection) (op : Op) :
    (c.step op).sentSYN = true ∧ (c.step op).sender.syn = true ∨ c.Rests (c.step op) := by
  cases op with
  | segmentReceived seg =>
    rw [step]
    cases hrst : seg.header.rst with
    | true =>
      rw [segmentReceived_of_rst hrst]
      exact Or.inr ⟨rfl, rfl, rfl, rfl, rfl, rfl⟩
    | false =>
      by_cases htakes : c.Takes seg
      · rw [segmentReceived_of_takes htakes]
        exact Or.inl (sendSegments_opened _ _)
      · rw [segmentReceived_of_not_takes hrst htakes]
        exact Or.inr ⟨rfl, rfl, rfl, rfl, rfl, rfl⟩
  | write data => exact Or.inl (sendSegments_opened _ _)
  | tick ms =>
    rw [step]
    by_cases hretx : maxRetxAttempts < (c.sender.tick ms).nConsecutiveRetransmissions
    · rw [tick_of_exhausted hretx]
      exact Or.inl (sendSegments_opened _ _)
    · rw [tick_of_not_exhausted hretx]
      split
      · exact Or.inl (sendSegments_opened _ _)
      · rw [prelude, tick_eq]
        exact Or.inr ⟨rfl, rfl, rfl, rfl, rfl, rfl⟩
  | endInputStream => exact Or.inl (sendSegments_opened _ _)
  | connect => exact Or.inl (sendSegments_opened _ _)
  | read len => exact Or.inr ⟨rfl, rfl, rfl, rfl, rfl, rfl⟩
  | pop len => exact Or.inr ⟨rfl, rfl, rfl, rfl, rfl, rfl⟩

theorem step_bare (h : c.sender.Only Bare) (op : Op) : (c.step op).sender.Only Bare :=
  step_sender (fun _ op hs => hs.step TileStep.bare (fun _ => ⟨rfl, rfl⟩) op)
    (fun _ hs => ⟨List.forall_mem_nil _, hs.in_flight⟩) (fun _ hs => ⟨hs.queued, hs.in_flight⟩) h

/-- Only an abort pushes a reset, and it leaves the connection in error. -/
theorem Engaged.intact_step (h : c.Engaged) (op : Op)
    (herror : (c.step op).sender.stream.error = false) :
    ∀ seg ∈ (c.step op).segmentsOut, seg.header.rst = false := by
  have hunreset : c.sender.Unreset :=
    ⟨fun seg hseg => (h.bare.queued seg hseg).rst_eq, fun t ht => (h.bare.in_flight t ht).rst_eq⟩
  have hbefore : c.sender.stream.error = false := by
    by_contra hset
    rw [(step_ends c op).error (by simpa using hset)] at herror
    cases herror
  have hfew : ∀ ms, op = .tick ms →
      (c.sender.tick ms).nConsecutiveRetransmissions ≤ maxRetxAttempts := by
    rintro ms rfl
    by_contra hmany
    rw [step, tick_of_exhausted (Nat.not_le.mp hmany), sendSegments_error,
      (uncleanShutdown_kept _).1] at herror
    cases herror
  obtain ⟨more, hout, hmore⟩ := step_unreset hunreset hfew
  rw [hout]
  exact List.forall_mem_append.mpr ⟨h.intact hbefore, hmore⟩

theorem Engaged.step (h : c.Engaged) (op : Op) : (c.step op).Engaged := by
  refine ⟨step_bare h.bare op, h.emptied.step op, ?_, ?_, ?_, h.intact_step op⟩
  · rcases c.step_opened op with ⟨hsent, hsyn⟩ | hrests
    · rw [hsent, hsyn]
    · rw [hrests.sentSYN_eq, hrests.syn_eq, h.opened]
  · rcases c.step_opened op with ⟨hsent, -⟩ | hrests
    · exact fun _ => hsent
    · rw [hrests.recievedSYN_eq, hrests.sentSYN_eq]
      exact h.answered
  · rcases c.step_opened op with ⟨hsent, -⟩ | hrests
    · intro hnot
      rw [hsent] at hnot
      cases hnot
    · rw [hrests.sentSYN_eq, hrests.segmentsOut_eq, hrests.contents_eq, hrests.ended_eq]
      exact h.fresh

theorem engaged_new {cfg : TCPConfig} {random : WrappingInt32} (h : new cfg random = some c) :
    c.Engaged := by
  obtain ⟨v, s, hv, hs, rfl⟩ := new_eq_some h
  obtain ⟨stream, hstream, rfl⟩ := TCPSender.new_eq_some hs
  obtain ⟨-, rfl⟩ := ByteStream.new_eq_some hstream
  obtain ⟨r, -, rfl⟩ := TCPReceiver.new_eq_some hv
  exact ⟨⟨List.forall_mem_nil _, List.forall_mem_nil _⟩, ⟨rfl, fun _ => rfl⟩, rfl,
    nofun, fun _ => ⟨rfl, rfl, rfl⟩, fun _ => List.forall_mem_nil _⟩

end Engaged

theorem step_capacity (c : TCPConnection) (op : Op) :
    (c.step op).receiver.reassembler.capacity = c.receiver.reassembler.capacity := by
  refine step_receiver (I := fun v => v.reassembler.capacity = c.receiver.reassembler.capacity)
    (fun _ hv => hv) ?_
  cases op with
  | segmentReceived seg =>
    rcases c.prelude_receiver seg with ⟨-, heq⟩ | ⟨-, heq⟩
    · rw [heq]
    · rw [heq]
      by_cases hlisten : c.receiver.Listens seg
      · rw [TCPReceiver.segmentReceived_eq hlisten]
        exact StreamReassembler.pushSubstring_capacity _ _ _ _
      · rw [TCPReceiver.segmentReceived_of_not_listens hlisten]
  | _ => rfl

section Takes
variable {c : TCPConnection} {seg : TCPSegment}

theorem segmentReceived_receiver (h : c.Takes seg) :
    (c.segmentReceived seg).receiver = c.receiver.segmentReceived seg := by
  rw [segmentReceived_of_takes h, (sendSegments_eq _ false).2]
  split
  · exact takeIn_receiver { c with timeSinceLastSegmentReceived := 0 } seg
  · exact takeIn_receiver { c with timeSinceLastSegmentReceived := 0 } seg

/-- What neither resets nor ends an endpoint. -/
theorem segmentReceived_kept (hrst : seg.header.rst = false) :
    (c.segmentReceived seg).sender.stream.error = c.sender.stream.error ∧
      (c.segmentReceived seg).sender.stream.isInputEnded = c.sender.stream.isInputEnded := by
  by_cases htakes : c.Takes seg
  · have hended : ({ c with timeSinceLastSegmentReceived := 0 }.takeIn
        seg).sender.stream.isInputEnded = c.sender.stream.isInputEnded := by
      rw [takeIn_sender]
      split
      · exact (ackReceived_latches c.sender seg.header.ackno seg.header.win).1
      · rfl
    obtain ⟨-, -, herror⟩ := takeIn_kept { c with timeSinceLastSegmentReceived := 0 } seg
    rw [segmentReceived_of_takes htakes]
    generalize takeIn _ seg = d at hended herror ⊢
    have hsent (e : TCPConnection) (he : e.sender.stream = d.sender.stream) :
        (e.sendSegments false).sender.stream.error = c.sender.stream.error ∧
          (e.sendSegments false).sender.stream.isInputEnded = c.sender.stream.isInputEnded := by
      obtain ⟨tiles, hfills⟩ := e.sender.fillWindow_fills
      rw [sendSegments_error, (e.sendSegments_eq false).1, he, herror, ← hended, ← he]
      exact ⟨rfl, hfills.frame.ended_eq⟩
    split
    · exact hsent _ rfl
    · exact hsent _ rfl
  · rw [segmentReceived_of_not_takes hrst htakes]
    exact ⟨rfl, rfl⟩

/-- A segment that provokes an answer is acknowledged at once. -/
theorem exists_answer (h : c.Takes seg) (hprovokes : c.provokes seg = true) {ackno : WrappingInt32}
    (hackno : (c.receiver.segmentReceived seg).ackno = some ackno) :
    ∃ answer ∈ (c.segmentReceived seg).segmentsOut, answer.Blank ∧ answer.header.ack = true ∧
      answer.header.ackno = ackno := by
  rw [segmentReceived_of_takes h, if_pos hprovokes, sendSegments_segmentsOut, dressAll_false]
  have hreceiver := takeIn_receiver { c with timeSinceLastSegmentReceived := 0 } seg
  generalize takeIn _ seg = d at hreceiver ⊢
  obtain ⟨tiles, hfills⟩ := d.sendEmptySegment.sender.fillWindow_fills
  have hqueued : d.sender.emptySegment ∈ d.sendEmptySegment.sender.fillWindow.segmentsOut := by
    rw [hfills.segmentsOut_eq]
    exact List.mem_append_left _ (List.mem_append_right _ List.mem_cons_self)
  refine ⟨_, List.mem_append_right _ (List.mem_map_of_mem hqueued), ?_⟩
  have hcopy := dress_copies d.sendEmptySegment.receiver false d.sender.emptySegment
  refine ⟨⟨hcopy.payload_eq, hcopy.syn_eq, hcopy.fin_eq⟩, ?_⟩
  have hsome : d.sendEmptySegment.receiver.ackno = some ackno := by
    change d.receiver.ackno = _
    rw [hreceiver]
    exact hackno
  rw [dress, hsome]
  exact ⟨rfl, rfl⟩

/-- The sender after a segment that carries an acknowledgment and nothing else. -/
theorem segmentReceived_sender (h : c.Takes seg) (hblank : seg.Blank)
    (hack : seg.header.ack = true) : (c.segmentReceived seg).sender.nextSeqno =
      (c.sender.ackReceived seg.header.ackno seg.header.win).fillWindow.nextSeqno := by
  have hquiet : c.provokes seg = false := by
    simp [provokes, hblank.syn_eq, hblank.fin_eq, hblank.payload_eq]
  rw [segmentReceived_of_takes h, hquiet, if_neg Bool.false_ne_true, (sendSegments_eq _ false).1,
    takeIn_sender, if_pos hack]

end Takes

/-- Without a SYN from the peer nothing is acknowledged. -/
theorem step_quiet {c : TCPConnection} {op : Op} (hbare : c.sender.Only Bare)
    (hsyn : c.receiver.recievedSYN = false) (hack : ∀ seg ∈ c.segmentsOut, seg.header.ack = false)
    (hop : ∀ seg, op ≠ .segmentReceived seg) :
    (c.step op).receiver.recievedSYN = false ∧
      ∀ seg ∈ (c.step op).segmentsOut, seg.header.ack = false := by
  have hall : (c.step op).sender.Only Bare ∧ (c.step op).receiver.recievedSYN = false ∧
      ∀ seg ∈ (c.step op).segmentsOut, seg.header.ack = false := by
    refine step_induct (I := fun d => d.sender.Only Bare ∧ d.receiver.recievedSYN = false ∧
      ∀ seg ∈ d.segmentsOut, seg.header.ack = false) ?_ ?_
    · rintro d e hmove ⟨hd, hdsyn, hdack⟩
      cases hmove with
      | send setRst =>
        have hfill := hd.fillWindow TileStep.bare
        rw [(d.sendSegments_eq setRst).1, (d.sendSegments_eq setRst).2,
          d.sendSegments_segmentsOut setRst]
        refine ⟨⟨List.forall_mem_nil _, hfill.in_flight⟩, hdsyn,
          List.forall_mem_append.mpr ⟨hdack, fun seg hseg => ?_⟩⟩
        obtain ⟨orig, horig, rst, rfl⟩ := mem_dressAll hseg
        by_contra hset
        have hackno := dress_ack (hfill.queued orig horig).ack_eq (by simpa using hset)
        rw [TCPReceiver.ackno, hdsyn] at hackno
        cases hackno
      | kill => exact ⟨⟨hd.queued, hd.in_flight⟩, hdsyn, hdack⟩
      | empty => exact ⟨hd.step TileStep.bare (fun _ => ⟨rfl, rfl⟩) .sendEmptySegment, hdsyn, hdack⟩
    · rw [c.prelude_segmentsOut op]
      have hstep (op : TCPSender.Op) : (c.sender.step op).Only Bare :=
        hbare.step TileStep.bare (fun _ => ⟨rfl, rfl⟩) op
      cases op with
      | segmentReceived seg => exact absurd rfl (hop seg)
      | write data => exact ⟨hstep (.write data), hsyn, hack⟩
      | tick ms => exact ⟨hstep (.tick ms), hsyn, hack⟩
      | endInputStream => exact ⟨hstep .endInput, hsyn, hack⟩
      | connect => exact ⟨hbare, hsyn, hack⟩
      | read len => exact ⟨hbare, hsyn, hack⟩
      | pop len => exact ⟨hbare, hsyn, hack⟩
  exact hall.2

end TCPConnection

namespace Network
open TCPConnection

section Runs
variable {cfg : Side → TCPConfig} {random : Side → WrappingInt32} {net net₀ : Net} {x : Side}
  {e : Side × TCPConnection.Op} {events : List (Side × TCPConnection.Op)}

theorem step_side {I : TCPConnection → Prop} (hstep : ∀ c op, I c → I (c.step op))
    (h : ∀ z, I (net z)) (z : Side) : I (machine.step net e z) := by
  by_cases hz : z = e.1
  · subst hz
    change I (Function.update net e.1 _ e.1)
    rw [Function.update_self]
    exact hstep _ _ (h e.1)
  · change I (Function.update net e.1 _ z)
    rw [Function.update_of_ne hz]
    exact h z

theorem engaged_run (hnew : ∀ z, TCPConnection.new (cfg z) (random z) = some (net₀ z))
    (hrun : machine.Admits net₀ events) (z : Side) : (machine.run net₀ events z).Engaged :=
  machine.invariant (I := fun net : Net => ∀ z, (net z).Engaged) (fun z => engaged_new (hnew z))
    (fun _ _ h _ => step_side (fun _ op hc => hc.step op) h) hrun z

/-- As long as the other side has sent nothing, `x` has not heard of it. -/
theorem quiet_run (hnew : ∀ z, TCPConnection.new (cfg z) (random z) = some (net₀ z))
    (hrun : machine.Admits net₀ events)
    (hsent : (machine.run net₀ events x.other).sentSYN = false) :
    (machine.run net₀ events x).receiver.recievedSYN = false ∧
      ∀ seg ∈ (machine.run net₀ events x).segmentsOut, seg.header.ack = false := by
  revert hsent
  refine machine.run_induction (P := fun events =>
    (machine.run net₀ events x.other).sentSYN = false →
    (machine.run net₀ events x).receiver.recievedSYN = false ∧
      ∀ seg ∈ (machine.run net₀ events x).segmentsOut, seg.header.ack = false) ?_ ?_ hrun
  · intro _
    obtain ⟨v, s, hv, -, hx⟩ := TCPConnection.new_eq_some (hnew x)
    obtain ⟨r, -, rfl⟩ := TCPReceiver.new_eq_some hv
    rw [machine.run_nil, hx]
    exact ⟨rfl, List.forall_mem_nil _⟩
  · intro past e hpast hen ih
    rw [machine.run_snoc]
    have hengaged := engaged_run hnew hpast
    generalize machine.run net₀ past = net at hen ih hengaged ⊢
    rcases step_cases net x e with ⟨hside, hx, hy, -⟩ | ⟨-, hx, hy, -⟩
    · rw [hx, hy]
      intro hsent
      obtain ⟨hsyn, hack⟩ := ih hsent
      refine step_quiet (hengaged x).bare hsyn hack fun seg hop => ?_
      have hmem := segment_mem_of_enabled hen hside seg hop
      rw [((hengaged x.other).fresh hsent).1] at hmem
      cases hmem
    · rw [hx, hy]
      intro hsent
      refine ih ?_
      rcases (net x.other).step_opened e.2 with ⟨hopened, -⟩ | hrests
      · rw [hopened] at hsent
        cases hsent
      · exact hrests.sentSYN_eq.symm.trans hsent

/-- A FIN has arrived only if it was sent. -/
theorem late_run (hnew : ∀ z, TCPConnection.new (cfg z) (random z) = some (net₀ z))
    (hrun : machine.Admits net₀ events)
    (hlen : (machine.collect (accepted x) net₀ events).length < 2 ^ 31 - 2)
    (hfin : (machine.run net₀ events x.other).receiver.recievedFIN = true) :
    (machine.run net₀ events x).sender.fin = true := by
  revert hlen hfin
  refine machine.run_induction (P := fun events =>
    (machine.collect (accepted x) net₀ events).length < 2 ^ 31 - 2 →
    (machine.run net₀ events x.other).receiver.recievedFIN = true →
    (machine.run net₀ events x).sender.fin = true) ?_ ?_ hrun
  · intro _ hfin
    obtain ⟨v, s, hv, -, hy⟩ := TCPConnection.new_eq_some (hnew x.other)
    obtain ⟨r, -, rfl⟩ := TCPReceiver.new_eq_some hv
    rw [machine.run_nil, hy] at hfin
    cases hfin
  · intro past e hpast hen ih hlen
    have hshort := (machine.collect_length_le (accepted x) net₀ past [e]).trans_lt hlen
    obtain ⟨tiles, hchannel⟩ := channel_run hnew x hpast hshort
    have ih := ih hshort
    rw [machine.run_snoc]
    generalize machine.run net₀ past = net at hen ih hchannel ⊢
    rcases step_cases net x e with ⟨-, hx, hy, -⟩ | ⟨hside, hx, hy, -⟩
    · rw [hx, hy]
      exact fun hfin => ((net x).step_latches e.2).2 (ih hfin)
    · rw [hx, hy]
      refine step_receiver (I := fun v => v.recievedFIN = true → (net x).sender.fin = true)
        (fun _ hv => hv) ?_
      obtain ⟨z, op⟩ := e
      subst hside
      cases op with
      | segmentReceived seg =>
        have hseg : seg ∈ (net x.other.other).segmentsOut := hen
        rw [Side.other_other] at hseg
        rcases (net x.other).prelude_receiver seg with ⟨-, heq⟩ | ⟨-, heq⟩
        · rw [heq]
          exact ih
        · rw [heq]
          intro hfin
          rcases TCPReceiver.recievedFIN_segmentReceived hfin with hold | hnow
          · exact ih hold
          · rcases hchannel.drives.emitted seg hseg with ⟨t, ht, hcopy⟩ | hblank
            · exact (hchannel.fin_ends ht hcopy hnow).1
            · rw [hblank.fin_eq] at hnow
              cases hnow
      | _ => exact ih

theorem finished_run (hnew : ∀ z, TCPConnection.new (cfg z) (random z) = some (net₀ z))
    (hrun : (machine.restrict (NoWriteAfterEnd x)).Admits net₀ events)
    (hlen : (machine.collect (accepted x) net₀ events).length < 2 ^ 31 - 2) :
    (machine.run net₀ events x).sender.Finished := by
  revert hlen
  refine (machine.restrict (NoWriteAfterEnd x)).run_induction (P := fun events =>
    (machine.collect (accepted x) net₀ events).length < 2 ^ 31 - 2 →
    (machine.run net₀ events x).sender.Finished) ?_ ?_ hrun
  · exact fun _ => (finished_new (hnew x)).1
  · intro past e hpast hen ih hlen
    have hshort := (machine.collect_length_le (accepted x) net₀ past [e]).trans_lt hlen
    have ih := ih hshort
    obtain ⟨tiles, hchannel⟩ := channel_run hnew x (machine.admits_of_restrict hpast) hshort
    rw [Machine.restrict_run] at hen
    rw [machine.run_snoc]
    generalize machine.run net₀ past = net at hen ih hchannel ⊢
    rcases step_cases net x e with ⟨hside, hx, -⟩ | ⟨-, hx, -⟩
    · rw [hx]
      exact finished_of_noWrite ih hchannel.drives.sound.stream_wf hen.2 hside
    · rw [hx]
      exact ih

/-- What holds of the direction from `x` to `y` in every state that is reached: the tiles sent are
on the network, and the receiver agrees with them. -/
structure Open (W taken : List Byte) (tiles : List OrderedSegment) (x y : TCPConnection) :
    Prop where
  accounts : Accounts W tiles x
  agrees : TCPReceiver.Agrees x.sender.isn (payloads tiles) taken y.receiver
  late : y.receiver.recievedFIN = true → x.sender.fin = true
  quiet : y.sentSYN = false → ∀ seg ∈ x.segmentsOut, seg.header.ack = false

theorem open_run (hnew : ∀ z, TCPConnection.new (cfg z) (random z) = some (net₀ z))
    (hrun : (machine.restrict (NoWriteAfterEnd x)).Admits net₀ events)
    (hlen : (machine.collect (accepted x) net₀ events).length < 2 ^ 31 - 2) :
    ∃ tiles, Open (machine.collect (accepted x) net₀ events)
      (machine.collect (readOut x.other) net₀ events) tiles (machine.run net₀ events x)
      (machine.run net₀ events x.other) := by
  have hadmits := machine.admits_of_restrict hrun
  obtain ⟨tiles, hchannel⟩ := channel_run hnew x hadmits hlen
  exact ⟨tiles, ⟨hchannel.drives, finished_run hnew hrun hlen⟩, hchannel.agrees,
    late_run hnew hadmits hlen, fun hsent => (quiet_run hnew hadmits hsent).2⟩

end Runs

/-- Neither side writes after the end of its stream. -/
def Orderly (net : Net) (e : Side × TCPConnection.Op) : Prop := ∀ x, NoWriteAfterEnd x net e

instance (net : Net) (e : Side × TCPConnection.Op) : Decidable (Orderly net e) :=
  decidable_of_iff (NoWriteAfterEnd .A net e ∧ NoWriteAfterEnd .B net e)
    ⟨fun h => Side.rec h.1 h.2, fun h => ⟨h .A, h .B⟩⟩

/-- A delivery of a segment that is no reset, or a read. -/
def Passive (_ : Net) : Side × TCPConnection.Op → Prop
  | (_, .segmentReceived seg) => seg.header.rst = false
  | (_, .read _) => True
  | _ => False

/-- The network and the readers go on; the writers do nothing. -/
def transfers : Machine Net (Side × TCPConnection.Op) := machine.restrict Passive

/-- The endpoints get to `net` with the bytes `W` accepted, and neither is in error. -/
structure Reached (net₀ : Net) (W : Side → List Byte) (net : Net) : Prop where
  run : ∃ events, (machine.restrict Orderly).Admits net₀ events ∧
    machine.run net₀ events = net ∧ ∀ z, machine.collect (accepted z) net₀ events = W z
  alive : ∀ z, (net z).sender.stream.error = false

section Passive
variable {net : Net} {e : Side × TCPConnection.Op}

/-- A passive event accepts nothing, ends nothing and is no write after the end. -/
theorem passive_kept (h : Passive net e) :
    (∀ x, NoWriteAfterEnd x net e) ∧ (∀ x, accepted x net e = []) ∧
      ((net e.1).step e.2).sender.stream.error = (net e.1).sender.stream.error ∧
      ((net e.1).step e.2).sender.stream.isInputEnded =
        (net e.1).sender.stream.isInputEnded := by
  obtain ⟨z, op⟩ := e
  cases op with
  | segmentReceived seg =>
    exact ⟨fun _ => trivial, fun x => ite_self _, segmentReceived_kept h⟩
  | read len => exact ⟨fun _ => trivial, fun x => ite_self _, rfl, rfl⟩
  | _ => exact h.elim

theorem transfers_kept (h : transfers.enabled net e) (z : Side) :
    (transfers.step net e z).sender.stream.error = (net z).sender.stream.error ∧
      (transfers.step net e z).sender.stream.isInputEnded =
        (net z).sender.stream.isInputEnded := by
  have hstep : transfers.step net e z = Function.update net e.1 ((net e.1).step e.2) z := rfl
  rw [hstep]
  by_cases hz : z = e.1
  · subst hz
    rw [Function.update_self]
    exact (passive_kept h.2).2.2
  · rw [Function.update_of_ne hz]
    exact ⟨rfl, rfl⟩

theorem transfers_step_other (net : Net) (x : Side) (op : TCPConnection.Op) :
    transfers.step net (x.other, op) x = net x ∧
      transfers.step net (x.other, op) x.other = (net x.other).step op :=
  ⟨Function.update_of_ne x.other_ne.symm .., Function.update_self ..⟩

theorem Reached.step {net₀ : Net} {W : Side → List Byte} (h : Reached net₀ W net)
    (hen : transfers.enabled net e) : Reached net₀ W (transfers.step net e) := by
  obtain ⟨events, hrun, rfl, hcollect⟩ := h.run
  obtain ⟨hwrites, haccepted, -⟩ := passive_kept hen.2
  refine ⟨⟨events ++ [e], ?_, machine.run_snoc _ _ _, fun z => ?_⟩, fun z => ?_⟩
  · exact (Machine.admits_snoc _ _ _ _).mpr ⟨hrun, hen.1, hwrites⟩
  · rw [machine.collect_snoc, haccepted, List.append_nil, hcollect]
  · rw [(transfers_kept hen z).1, h.alive]

end Passive

section Progress
variable {cfg : Side → TCPConfig} {random : Side → WrappingInt32} {net net₀ : Net}
  {W : Side → List Byte} {x : Side}

theorem capacity_run (hnew : ∀ z, TCPConnection.new (cfg z) (random z) = some (net₀ z))
    {events : List (Side × TCPConnection.Op)} (z : Side) :
    (machine.run net₀ events z).receiver.reassembler.capacity = (cfg z).recvCapacity := by
  induction events using List.reverseRecOn with
  | nil =>
    obtain ⟨v, s, hv, -, hz⟩ := TCPConnection.new_eq_some (hnew z)
    obtain ⟨r, hr, rfl⟩ := TCPReceiver.new_eq_some hv
    obtain ⟨output, -, rfl⟩ := StreamReassembler.new_eq_some hr
    rw [machine.run_nil, hz]
  | append_singleton past e ih =>
    rw [machine.run_snoc, ← ih]
    generalize machine.run net₀ past = net
    by_cases hz : z = e.1
    · subst hz
      change (Function.update net e.1 _ e.1).receiver.reassembler.capacity = _
      rw [Function.update_self]
      exact (net e.1).step_capacity e.2
    · change (Function.update net e.1 _ z).receiver.reassembler.capacity = _
      rw [Function.update_of_ne hz]

/-- What the assumptions on the two endpoints give in every state that is reached. -/
structure Situation (x : Side) (W taken : List Byte) (tiles : List OrderedSegment) (net : Net) :
    Prop where
  link : Open W taken tiles (net x) (net x.other)
  engaged : ∀ z, (net z).Engaged
  intact : ∀ z, ∀ seg ∈ (net z).segmentsOut, seg.header.rst = false
  room : 0 < (net x.other).receiver.reassembler.capacity
  short : (payloads tiles).length < 2 ^ 31 - 2

theorem Reached.situation (hnew : ∀ z, TCPConnection.new (cfg z) (random z) = some (net₀ z))
    (hcap : ∀ z, 0 < (cfg z).recvCapacity) (hlen : ∀ z, (W z).length < 2 ^ 31 - 2)
    (h : Reached net₀ W net) (x : Side) : ∃ taken tiles, Situation x (W x) taken tiles net := by
  obtain ⟨events, hrun, rfl, hcollect⟩ := h.run
  have hadmits := machine.admits_of_restrict hrun
  have hone := machine.restrict_mono (fun _ _ hwrites => hwrites x) hrun
  obtain ⟨tiles, hopen⟩ := open_run hnew hone (hcollect x ▸ hlen x)
  rw [hcollect] at hopen
  have hengaged := engaged_run hnew hadmits
  refine ⟨_, tiles, hopen, hengaged, fun z => (hengaged z).intact (h.alive z), ?_, ?_⟩
  · rw [capacity_run hnew]
    exact hcap x.other
  · have hsent := congrArg List.length hopen.accounts.history.sent_eq
    have hshort := hlen x
    rw [List.length_append] at hsent
    omega

namespace Situation
variable {taken : List Byte} {tiles : List OrderedSegment} {V : List Byte} {seg : TCPSegment}
  (h : Situation x V taken tiles net)
include h

theorem bytesWritten_le :
    (net x.other).inboundStream.bytesWritten ≤ (payloads tiles).length :=
  h.link.agrees.represents.bytesWritten_le

/-- A tile has a copy on the network. -/
theorem exists_copy {t : OrderedSegment} (ht : t ∈ tiles) :
    ∃ out ∈ (net x).segmentsOut, out.Copies t.seg := by
  rcases h.link.accounts.pushed t ht with hqueued | hcopy
  · rw [(h.engaged x).emptied.queue_eq] at hqueued
    cases hqueued
  · exact hcopy

theorem takes (hseg : seg ∈ (net x).segmentsOut) : (net x.other).Takes seg := by
  refine ⟨h.intact x seg hseg, ?_⟩
  cases hsent : (net x.other).sentSYN with
  | true => exact Or.inl rfl
  | false => exact Or.inr (h.link.quiet hsent seg hseg)

theorem enabled (hseg : seg ∈ (net x).segmentsOut) :
    transfers.enabled net (x.other, .segmentReceived seg) := by
  refine ⟨?_, h.intact x seg hseg⟩
  change seg ∈ (net x.other.other).segmentsOut
  rw [Side.other_other]
  exact hseg

/-- The first tile is the SYN. -/
theorem exists_syn (hsyn : (net x).sender.syn = true) :
    ∃ out ∈ (net x).segmentsOut, out.header.syn = true ∧
      out.Carries (net x).sender.isn (payloads tiles) 0 := by
  have hist := h.link.accounts.history
  obtain ⟨rest, htiles, -⟩ := hist.opened hsyn
  have hmem : (⟨0, synSegment (net x).sender.isn⟩ : OrderedSegment) ∈ tiles := by
    rw [htiles]
    exact List.mem_cons_self
  obtain ⟨out, hout, hcopy⟩ := h.exists_copy hmem
  exact ⟨out, hout, hcopy.syn_eq, hcopy.carries (hist.carries _ hmem)⟩

/-- The last tile has the FIN, once that is sent. -/
theorem exists_fin (hfin : (net x).sender.fin = true) :
    ∃ out ∈ (net x).segmentsOut, out.header.fin = true ∧ ∃ i,
      out.Carries (net x).sender.isn (payloads tiles) i ∧
      i + out.payload.length = (payloads tiles).length := by
  have hist := h.link.accounts.history
  have hsyn := hist.syn_of_fin hfin
  have hnext := hist.next_eq hsyn
  rw [hfin, if_pos rfl] at hnext
  obtain ⟨t, ⟨ht, hlo, hhi⟩, -⟩ := hist.cover.existsUnique
    (q := 1 + (payloads tiles).length) (Nat.zero_le _) (by omega)
  have hslice := (hist.carries t ht).isSlice.end_le
  obtain ⟨rest, htiles, hrest⟩ := hist.opened hsyn
  have hplain : t.seg.header.syn = false := by
    rw [htiles] at ht
    rcases List.mem_cons.mp ht with rfl | hmem
    · exact absurd hhi (by simp [OrderedSegment.length, synSegment, lengthInSequenceSpace])
    · exact (hrest t hmem).1
  have hlength : t.length = t.seg.payload.length + (if t.seg.header.fin then 1 else 0) := by
    rw [OrderedSegment.length, lengthInSequenceSpace, hplain]
    rfl
  have hset : t.seg.header.fin = true := by
    by_contra hnot
    rw [if_neg hnot] at hlength
    omega
  rw [hset, if_pos rfl] at hlength
  obtain ⟨out, hout, hcopy⟩ := h.exists_copy ht
  refine ⟨out, hout, hcopy.fin_eq.trans hset, t.absSeqno - 1, hcopy.carries (hist.carries t ht), ?_⟩
  rw [hcopy.payload_eq]
  omega

/-- The window is open where nothing is left unread. -/
theorem window_open (hempty : (net x.other).receiver.reassembler.output.endOfBuffer = 0) :
    (net x.other).receiver.streamOut.bytesWritten <
      (net x.other).receiver.reassembler.windowEnd := by
  have hcapacity := h.room
  have hcount := h.link.agrees.represents.bytesWritten_eq
  have hgone := h.link.agrees.represents.bytesRead_eq
  rw [StreamReassembler.windowEnd]
  change (net x.other).receiver.reassembler.output.bytesWritten < _
  omega

end Situation

/-- The network delivers a segment of `x` that the other side listens to. -/
theorem Reached.deliver {taken : List Byte} {tiles : List OrderedSegment} {seg : TCPSegment} {i : ℕ}
    (h : Reached net₀ W net) (hsit : Situation x (W x) taken tiles net)
    (hseg : seg ∈ (net x).segmentsOut)
    (hcarries : seg.Carries (net x).sender.isn (payloads tiles) i)
    (hlisten : (net x.other).receiver.Listens seg) :
    ∃ net', transfers.Leads net net' ∧ (Reached net₀ W net' ∧ net' x = net x) ∧
      net' x.other = (net x.other).segmentReceived seg ∧
      (net' x.other).receiver = (net x.other).receiver.segmentReceived seg ∧
      (net' x.other).receiver.recievedSYN = true ∧
      (net x.other).inboundStream.bytesWritten ≤ (net' x.other).inboundStream.bytesWritten ∧
      ((net x.other).inboundStream.inputEnded = true →
        (net' x.other).inboundStream.inputEnded = true) := by
  have hen := hsit.enabled hseg
  obtain ⟨hx, hy⟩ := transfers_step_other net x (.segmentReceived seg)
  have hreceiver : (transfers.step net (x.other, .segmentReceived seg) x.other).receiver =
      (net x.other).receiver.segmentReceived seg := by
    rw [hy]
    exact segmentReceived_receiver (hsit.takes hseg)
  refine ⟨_, .step hen, ⟨h.step hen, hx⟩, hy, hreceiver, ?_, ?_⟩
  · rw [hreceiver, TCPReceiver.segmentReceived_eq hlisten]
  · simp only [inboundStream, hreceiver]
    exact hsit.link.agrees.segmentReceived_mono hsit.short (Or.inl ⟨i, hcarries⟩)

/-- The reader at `y` takes everything out. -/
theorem Reached.drain (h : Reached net₀ W net) (y : Side) :
    ∃ net', transfers.Leads net net' ∧ Reached net₀ W net' ∧ net' y.other = net y.other ∧
      (net' y).receiver = ((net y).receiver.read (net y).inboundStream.bufferSize).2 := by
  have hen : transfers.enabled net (y, .read (net y).inboundStream.bufferSize) :=
    ⟨trivial, trivial⟩
  refine ⟨_, .step hen, h.step hen, Function.update_of_ne y.other_ne .., ?_⟩
  change (Function.update net y ((net y).step _) y).receiver = _
  rw [Function.update_self]
  rfl

theorem read_all {S taken : List Byte} {r : StreamReassembler}
    (h : StreamReassembler.Represents S taken r) :
    (r.read r.output.bufferSize).2.output.endOfBuffer = 0 := by
  have hlen : r.output.readLen r.output.bufferSize = r.output.endOfBuffer := by
    rw [ByteStream.readLen_eq, ByteStream.bufferSize, Nat.min_self]
  change (r.output.popOutput (r.output.readLen r.output.bufferSize)).endOfBuffer = 0
  rw [hlen, h.output_wf.endOfBuffer_popOutput (le_refl _), Nat.sub_self]

/-- The receiver has all that `x` has sent, and the end if that is sent. -/
structure Caught (x : Side) (net : Net) : Prop where
  syn_eq : (net x.other).receiver.recievedSYN = true
  next_eq : (net x).sender.nextSeqno =
    1 + (net x.other).inboundStream.bytesWritten + if (net x).sender.fin then 1 else 0
  ended : (net x).sender.fin = true → (net x.other).inboundStream.inputEnded = true

/-- What the receiver of `x` has still to get. -/
def lacking (x : Side) (W : List Byte) (net : Net) : ℕ :=
  W.length - (net x.other).inboundStream.bytesWritten +
    (if (net x.other).receiver.recievedSYN then 0 else 1) +
    if (net x.other).inboundStream.inputEnded then 0 else 1

theorem lacking_lt {W : List Byte} {net net' : Net}
    (hsyn : (net' x.other).receiver.recievedSYN = true)
    (hwritten : (net x.other).inboundStream.bytesWritten ≤
      (net' x.other).inboundStream.bytesWritten)
    (hended : (net x.other).inboundStream.inputEnded = true →
      (net' x.other).inboundStream.inputEnded = true)
    (hless : (net x.other).receiver.recievedSYN = false ∨
      (net x.other).inboundStream.bytesWritten < W.length ∧
        (net x.other).inboundStream.bytesWritten < (net' x.other).inboundStream.bytesWritten ∨
      (net x.other).inboundStream.inputEnded = false ∧
        (net' x.other).inboundStream.inputEnded = true) : lacking x W net' < lacking x W net := by
  simp only [lacking, hsyn, if_true]
  rcases hless with hnew | ⟨hmore, hless⟩ | ⟨hopen, hclosed⟩
  · rw [hnew]
    cases hold : (net x.other).inboundStream.inputEnded with
    | true =>
      rw [hended hold]
      simp only [Bool.false_eq_true, if_true, if_false]
      omega
    | false =>
      simp only [Bool.false_eq_true, if_false]
      split <;> omega
  · cases hold : (net x.other).inboundStream.inputEnded with
    | true =>
      rw [hended hold]
      simp only [if_true]
      split <;> omega
    | false =>
      simp only [Bool.false_eq_true, if_false]
      split <;> split <;> omega
  · rw [hopen, hclosed]
    simp only [Bool.false_eq_true, if_true, if_false]
    split <;> omega

/-- A byte that has left the sender gets to the receiver if nothing is left unread there. -/
theorem Reached.next_byte_of_empty (h : Reached net₀ W net)
    (hlisten : (net x.other).receiver.recievedSYN = true) {taken : List Byte}
    {tiles : List OrderedSegment} (hsit : Situation x (W x) taken tiles net)
    (hempty : (net x.other).receiver.reassembler.output.endOfBuffer = 0)
    (hless : (net x.other).inboundStream.bytesWritten < (payloads tiles).length) :
    ∃ net', transfers.Leads net net' ∧ (Reached net₀ W net' ∧ net' x = net x) ∧
      lacking x (W x) net' < lacking x (W x) net := by
  have hhist := hsit.link.accounts.history
  have hmore : (payloads tiles).length ≤ (W x).length := by
    rw [← hhist.sent_eq, List.length_append]
    exact Nat.le_add_right _ _
  obtain ⟨t, ht, hlo, hhi⟩ := hhist.exists_tile hless
  obtain ⟨out, hout, hcopy⟩ := hsit.exists_copy ht
  have hcarries := hcopy.carries (hhist.carries t ht)
  obtain ⟨net', hleads, hkept, -, hreceiver, hsyn, hle, hlatched⟩ :=
    h.deliver hsit hout hcarries (Or.inl hlisten)
  have hlt := hsit.link.agrees.bytesWritten_lt hsit.short hcarries (Or.inl hlisten) hlo
    (by rw [hcopy.payload_eq]; exact hhi) (hsit.window_open hempty)
  rw [← hreceiver] at hlt
  exact ⟨net', hleads, hkept,
    lacking_lt hsyn hle hlatched (Or.inr (Or.inl ⟨hless.trans_le hmore, hlt⟩))⟩

section Strategy
variable (hnew : ∀ z, TCPConnection.new (cfg z) (random z) = some (net₀ z))
  (hcap : ∀ z, 0 < (cfg z).recvCapacity) (hlen : ∀ z, (W z).length < 2 ^ 31 - 2)
include hnew hcap hlen

/-- A byte that has left the sender gets to the receiver, once the reader has made room. -/
theorem Reached.next_byte (h : Reached net₀ W net)
    (hlisten : (net x.other).receiver.recievedSYN = true) {taken : List Byte}
    {tiles : List OrderedSegment} (hsit : Situation x (W x) taken tiles net)
    (hless : (net x.other).inboundStream.bytesWritten < (payloads tiles).length) :
    ∃ net', transfers.Leads net net' ∧ (Reached net₀ W net' ∧ net' x = net x) ∧
      lacking x (W x) net' < lacking x (W x) net := by
  obtain ⟨mid, hread, hmid, hx, hreceiver⟩ := h.drain x.other
  rw [Side.other_other] at hx
  obtain ⟨taken', tiles', hsit'⟩ := hmid.situation hnew hcap hlen x
  have hsame : payloads tiles' = payloads tiles := by
    have hleft := hsit'.link.accounts.history.sent_eq.trans hsit.link.accounts.history.sent_eq.symm
    rw [hx] at hleft
    exact List.append_cancel_right hleft
  have hempty : (mid x.other).receiver.reassembler.output.endOfBuffer = 0 := by
    rw [hreceiver]
    exact read_all hsit.link.agrees.represents
  -- a read leaves alone what is counted
  have hwritten : (mid x.other).inboundStream.bytesWritten =
      (net x.other).inboundStream.bytesWritten := by
    rw [inboundStream, hreceiver]
    rfl
  have hlacking : lacking x (W x) mid = lacking x (W x) net := by
    simp only [lacking, inboundStream, hreceiver]
    rfl
  have hsyn : (mid x.other).receiver.recievedSYN = true := by
    rw [hreceiver]
    exact hlisten
  rw [← hwritten, ← hsame] at hless
  obtain ⟨net', hleads, ⟨hreached, hkept⟩, hlt⟩ :=
    hmid.next_byte_of_empty hsyn hsit' hempty hless
  exact ⟨net', hread.trans hleads, ⟨hreached, hkept.trans hx⟩, hlacking ▸ hlt⟩

/-- As long as the receiver lacks something that `x` has sent, it can be given some of it. -/
theorem Reached.next_part (h : Reached net₀ W net) (hsyn : (net x).sender.syn = true) :
    ∃ net', transfers.Leads net net' ∧ (Reached net₀ W net' ∧ net' x = net x) ∧
      (Caught x net' ∨ lacking x (W x) net' < lacking x (W x) net) := by
  obtain ⟨taken, tiles, hsit⟩ := h.situation hnew hcap hlen x
  have hnext := hsit.link.accounts.history.next_eq hsyn
  cases hgot : (net x.other).receiver.recievedSYN with
  | false =>
    obtain ⟨out, hout, hset, hcarries⟩ := hsit.exists_syn hsyn
    obtain ⟨net', hleads, hkept, -, -, hsyn', hle, hlatched⟩ :=
      h.deliver hsit hout hcarries (Or.inr hset)
    exact ⟨net', hleads, hkept, Or.inr (lacking_lt hsyn' hle hlatched (Or.inl hgot))⟩
  | true =>
    rcases hsit.bytesWritten_le.lt_or_eq with hless | hall
    · obtain ⟨net', hleads, hkept, hlt⟩ := h.next_byte hnew hcap hlen hgot hsit hless
      exact ⟨net', hleads, hkept, Or.inr hlt⟩
    · by_cases hmissing : (net x).sender.fin = true ∧
          (net x.other).inboundStream.inputEnded = false
      · obtain ⟨out, hout, hfin, i, hcarries, hend⟩ := hsit.exists_fin hmissing.1
        obtain ⟨net', hleads, hkept, -, hreceiver, hsyn', hle, hlatched⟩ :=
          h.deliver hsit hout hcarries (Or.inl hgot)
        have hended := hsit.link.agrees.ended_of_fin hsit.short hcarries (Or.inl hgot) hfin hend
          hall
        rw [← hreceiver] at hended
        exact ⟨net', hleads, hkept,
          Or.inr (lacking_lt hsyn' hle hlatched (Or.inr (Or.inr ⟨hmissing.2, hended⟩)))⟩
      · refine ⟨net, .refl net, ⟨h, rfl⟩, Or.inl ⟨hgot, by rw [hall]; exact hnext, fun hfin => ?_⟩⟩
        by_contra hopen
        exact hmissing ⟨hfin, by simpa using hopen⟩

/-- The receiver can be given everything that `x` has sent. -/
theorem Reached.catch_up (h : Reached net₀ W net) (hsyn : (net x).sender.syn = true) :
    ∃ net', transfers.Leads net net' ∧ (Reached net₀ W net' ∧ net' x = net x) ∧ Caught x net' := by
  refine transfers.leads_of_lt (I := fun mid => Reached net₀ W mid ∧ mid x = net x)
    (lacking x (W x)) ?_ ⟨h, rfl⟩
  rintro mid ⟨hmid, hx⟩
  obtain ⟨net', hleads, ⟨hreached, hkept⟩, hnear⟩ :=
    hmid.next_part hnew hcap hlen (x := x) (by rw [hx]; exact hsyn)
  exact ⟨net', hleads, ⟨hreached, hkept.trans hx⟩, hnear⟩

/-- A receiver that has everything acknowledges it when the SYN arrives once more. -/
theorem Reached.acknowledge (h : Reached net₀ W net) (hcaught : Caught x net)
    (hsyn : (net x).sender.syn = true) (hfin : (net x).sender.fin = false) :
    ∃ net', transfers.Leads net net' ∧ (Reached net₀ W net' ∧ net' x = net x) ∧
      ∃ answer ∈ (net' x.other).segmentsOut, answer.Blank ∧ answer.header.ack = true ∧
        answer.header.ackno = wrap (net x).sender.nextSeqno (net x).sender.isn := by
  obtain ⟨taken, tiles, hsit⟩ := h.situation hnew hcap hlen x
  obtain ⟨out, hout, hset, hcarries⟩ := hsit.exists_syn hsyn
  have hlisten : (net x.other).receiver.Listens out := Or.inr hset
  obtain ⟨net', hleads, ⟨hreached, hx⟩, hy, hreceiver, hgot, hle, -⟩ :=
    h.deliver hsit hout hcarries hlisten
  obtain ⟨taken', tiles', hsit'⟩ := hreached.situation hnew hcap hlen x
  have hnext := hcaught.next_eq
  have hnext' := hsit'.link.accounts.history.next_eq (by rw [hx]; exact hsyn)
  rw [hx, hfin] at hnext'
  rw [hfin] at hnext
  have hmax := hsit'.bytesWritten_le
  have hcount : (net' x.other).receiver.reassembler.output.bytesWritten =
      (net x.other).inboundStream.bytesWritten := by
    change (net' x.other).inboundStream.bytesWritten = _
    simp only [Bool.false_eq_true, if_false] at hnext hnext'
    omega
  have hbit : (net' x.other).receiver.finBit = 0 := by
    have hunfinished : (net' x.other).receiver.recievedFIN = false := by
      by_contra hlate
      have hsent := hsit'.link.late (by simpa using hlate)
      rw [hx, hfin] at hsent
      cases hsent
    rw [TCPReceiver.finBit, hunfinished]
    simp
  have hackno := TCPReceiver.ackno_eq hgot
  rw [hcount, hbit, hsit'.link.agrees.isn_eq hgot, hx, hreceiver] at hackno
  have hprovokes : (net x.other).provokes out = true := by
    rw [provokes, hset, (hsit.engaged x.other).answered hcaught.syn_eq]
    rfl
  obtain ⟨answer, hanswer, hblank, hack, hnumber⟩ :=
    exists_answer (hsit.takes hout) hprovokes hackno
  refine ⟨net', hleads, ⟨hreached, hx⟩, answer, ?_, hblank, hack, ?_⟩
  · rw [hy]
    exact hanswer
  · rw [hnumber, hnext]
    simp

/-- A sender with something left to send goes on when everything sent is acknowledged. -/
theorem Reached.send_more (h : Reached net₀ W net) (hcaught : Caught x net)
    (hsyn : (net x).sender.syn = true) (hfin : (net x).sender.fin = false)
    (hpending : (net x).sender.hasPending = true) :
    ∃ net', transfers.Leads net net' ∧ Reached net₀ W net' ∧
      (net x).sender.nextSeqno < (net' x).sender.nextSeqno := by
  obtain ⟨mid, hleads, ⟨hmid, hx⟩, answer, hanswer, hblank, hack, hackno⟩ :=
    h.acknowledge hnew hcap hlen hcaught hsyn hfin
  obtain ⟨_, _, hback⟩ := hmid.situation hnew hcap hlen x.other
  have hen := hback.enabled hanswer
  have htakes := hback.takes hanswer
  have hstep := (transfers_step_other mid x.other (.segmentReceived answer)).2
  rw [Side.other_other] at hen htakes hstep
  refine ⟨_, hleads.trans (.step hen), hmid.step hen, ?_⟩
  rw [hstep, TCPConnection.step, segmentReceived_sender htakes hblank hack, hx, hackno]
  obtain ⟨taken, tiles, hsit⟩ := h.situation hnew hcap hlen x
  have hnext := hsit.link.accounts.history.next_eq hsyn
  have hshort := hsit.short
  have hsound := hsit.link.accounts.sound
  obtain ⟨start, hout⟩ := hsound.outstanding
  have hcp := hout.checkpoint_le
  have hbound : (net x).sender.nextSeqno < 2 ^ 31 := by
    rw [hfin] at hnext
    simp only [Bool.false_eq_true, if_false] at hnext
    omega
  exact hsound.resumes hfin hpending
    (unwrap_wrap _ (by omega) (by omega) (by omega) (by omega)) answer.header.win

/-- Everything written on the side of `x` has arrived on the other one. -/
structure Done (x : Side) (W : List Byte) (net : Net) : Prop where
  written_eq : (net x.other).inboundStream.bytesWritten = W.length
  ended : (net x).sender.stream.isInputEnded = true →
    (net x.other).inboundStream.inputEnded = true

/-- A sender that has sent nothing has nothing to send. -/
theorem Reached.done_of_unsent (h : Reached net₀ W net) (hsyn : (net x).sender.syn = false) :
    Done x (W x) net := by
  obtain ⟨taken, tiles, hsit⟩ := h.situation hnew hcap hlen x
  have hengaged := hsit.engaged x
  obtain ⟨-, hcontents, hopen⟩ := hengaged.fresh (by rw [hengaged.opened, hsyn])
  have hist := hsit.link.accounts.history
  have hsent := hist.sent_eq
  rw [(hist.unsent hsyn).1, hcontents] at hsent
  have hwritten := hsit.bytesWritten_le
  rw [(hist.unsent hsyn).1] at hwritten
  refine ⟨?_, fun hended => ?_⟩
  · rw [← hsent]
    exact Nat.le_zero.mp hwritten
  · rw [hopen] at hended
    cases hended

/-- A sender with nothing left to send is done as soon as the receiver has caught up. -/
theorem Reached.done_of_caught (h : Reached net₀ W net) (hcaught : Caught x net)
    (hsyn : (net x).sender.syn = true)
    (hleft : (net x).sender.fin = true ∨ (net x).sender.hasPending = false) :
    Done x (W x) net := by
  obtain ⟨taken, tiles, hsit⟩ := h.situation hnew hcap hlen x
  have hist := hsit.link.accounts.history
  have hnext := hist.next_eq hsyn
  have hcount := hcaught.next_eq
  have hcontents : (net x).sender.stream.contents = [] ∧
      ((net x).sender.stream.isInputEnded = true → (net x).sender.fin = true) := by
    rcases hleft with hfin | hnone
    · exact ⟨(hsit.link.accounts.finished hfin).2, fun _ => hfin⟩
    · rw [TCPSender.hasPending, Bool.or_eq_false_iff, Bool.not_eq_false'] at hnone
      refine ⟨hsit.link.accounts.sound.stream_wf.bufferEmpty_iff.mp hnone.2, fun hended => ?_⟩
      rw [ByteStream.eof, hended, hnone.2] at hnone
      cases hnone.1
  refine ⟨?_, fun hended => hcaught.ended (hcontents.2 hended)⟩
  rw [← hist.sent_eq, hcontents.1, List.append_nil]
  omega

/-- The side of `x` can be brought to its end. -/
theorem Reached.finish (h : Reached net₀ W net) (x : Side) :
    ∃ net', transfers.Leads net net' ∧ Reached net₀ W net' ∧ Done x (W x) net' := by
  refine transfers.leads_of_lt (I := Reached net₀ W)
    (fun mid => (W x).length + 2 - (mid x).sender.nextSeqno) ?_ h
  intro mid hmid
  cases hsyn : (mid x).sender.syn with
  | false => exact ⟨mid, .refl mid, hmid, Or.inl (hmid.done_of_unsent hnew hcap hlen hsyn)⟩
  | true =>
    obtain ⟨far, hleads, ⟨hfar, hx⟩, hcaught⟩ := hmid.catch_up hnew hcap hlen hsyn
    rw [← hx] at hsyn ⊢
    by_cases hleft : (far x).sender.fin = true ∨ (far x).sender.hasPending = false
    · exact ⟨far, hleads, hfar, Or.inl (hfar.done_of_caught hnew hcap hlen hcaught hsyn hleft)⟩
    · simp only [not_or, Bool.not_eq_true, Bool.not_eq_false] at hleft
      obtain ⟨net', hmore, hreached, hlt⟩ :=
        hfar.send_more hnew hcap hlen hcaught hsyn hleft.1 hleft.2
      refine ⟨net', hleads.trans hmore, hreached, Or.inr ?_⟩
      obtain ⟨taken, tiles, hsit⟩ := hfar.situation hnew hcap hlen x
      have hist := hsit.link.accounts.history
      have hnext := hist.next_eq hsyn
      have hsent := congrArg List.length hist.sent_eq
      rw [hleft.1, if_neg Bool.false_ne_true] at hnext
      rw [List.length_append] at hsent
      omega

theorem Reached.done_step {e : Side × TCPConnection.Op} (h : Reached net₀ W net)
    (hdone : Done x (W x) net) (hen : transfers.enabled net e) :
    Done x (W x) (transfers.step net e) := by
  obtain ⟨taken', tiles', hsit⟩ := (h.step hen).situation hnew hcap hlen x
  have hmax := hsit.bytesWritten_le
  have hsent := congrArg List.length hsit.link.accounts.history.sent_eq
  rw [List.length_append] at hsent
  have hmono : (net x.other).inboundStream.bytesWritten ≤
      (transfers.step net e x.other).inboundStream.bytesWritten ∧
      ((net x.other).inboundStream.inputEnded = true →
        (transfers.step net e x.other).inboundStream.inputEnded = true) := by
    obtain ⟨events, hrun, rfl, hcollect⟩ := h.run
    rcases step_cases (machine.run net₀ events) x e with ⟨-, -, hy, -⟩ | ⟨hside, -, hy, -⟩
    · change _ ≤ (machine.step _ e x.other).inboundStream.bytesWritten ∧
        (_ → (machine.step _ e x.other).inboundStream.inputEnded = true)
      rw [hy]
      exact ⟨le_refl _, id⟩
    · change _ ≤ (machine.step _ e x.other).inboundStream.bytesWritten ∧
        (_ → (machine.step _ e x.other).inboundStream.inputEnded = true)
      rw [hy]
      obtain ⟨tiles, hchannel⟩ := channel_run hnew x (machine.admits_of_restrict hrun)
        (hcollect x ▸ hlen x)
      have hshort := hchannel.sent_isPrefix.length_le.trans_lt (hcollect x ▸ hlen x)
      exact receiver_mono hchannel.agrees hshort (hchannel.fair hen.1 hside)
  refine ⟨?_, fun hended => hmono.2 (hdone.ended ?_)⟩
  · have hwritten := hdone.written_eq
    omega
  · rw [← (transfers_kept hen x).2]
    exact hended

theorem Reached.done_leads {net' : Net} (h : Reached net₀ W net) (hdone : Done x (W x) net)
    (hleads : transfers.Leads net net') : Done x (W x) net' := by
  have hboth : Reached net₀ W net' ∧ Done x (W x) net' :=
    hleads.invariant (I := fun net => Reached net₀ W net ∧ Done x (W x) net) ⟨h, hdone⟩
      fun _ _ ⟨hmid, hd⟩ hen => ⟨hmid.step hen, hmid.done_step hnew hcap hlen hd hen⟩
  exact hboth.2

/-- Both directions can be brought to their end, with nothing left unread. -/
theorem Reached.finish_both (h : Reached net₀ W net) :
    ∃ net', transfers.Leads net net' ∧ ∀ x, Done x (W x) net' ∧
      (net' x.other).inboundStream.endOfBuffer = 0 := by
  obtain ⟨n₁, h₁, hr₁, hleft⟩ := h.finish hnew hcap hlen .A
  obtain ⟨n₂, h₂, hr₂, hright⟩ := hr₁.finish hnew hcap hlen .B
  obtain ⟨n₃, h₃, hr₃, -, hrecv₃⟩ := hr₂.drain .A
  obtain ⟨n₄, h₄, hr₄, hkept, hrecv₄⟩ := hr₃.drain .B
  obtain ⟨taken, tiles, hsit₂⟩ := hr₂.situation hnew hcap hlen .B
  obtain ⟨taken', tiles', hsit₃⟩ := hr₃.situation hnew hcap hlen .A
  have hrest := h₂.trans (h₃.trans h₄)
  refine ⟨n₄, h₁.trans hrest, ?_⟩
  rintro (_ | _)
  · refine ⟨hr₁.done_leads hnew hcap hlen hleft hrest, ?_⟩
    change (n₄ .B).receiver.reassembler.output.endOfBuffer = 0
    rw [hrecv₄]
    exact read_all hsit₃.link.agrees.represents
  · refine ⟨hr₂.done_leads hnew hcap hlen hright (h₃.trans h₄), ?_⟩
    change (n₄ .A).receiver.reassembler.output.endOfBuffer = 0
    have hsame : n₄ .A = n₃ .A := hkept
    rw [hsame, hrecv₃]
    exact read_all hsit₂.link.agrees.represents

end Strategy

theorem accepted_transfers {more : List (Side × TCPConnection.Op)}
    (h : transfers.Admits net more) (x : Side) : machine.collect (accepted x) net more = [] := by
  induction more generalizing net with
  | nil => rfl
  | cons e more ih =>
    rw [machine.collect_cons, (passive_kept h.1.2).2.1, List.nil_append]
    exact ih h.2

theorem ended_transfers {more : List (Side × TCPConnection.Op)}
    (h : transfers.Admits net more) (x : Side) :
    (transfers.run net more x).sender.stream.isInputEnded =
      (net x).sender.stream.isInputEnded := by
  refine transfers.invariant (I := fun mid : Net => (mid x).sender.stream.isInputEnded =
    (net x).sender.stream.isInputEnded) rfl (fun mid e hmid hen => ?_) h
  rw [(transfers_kept hen x).2, hmid]

/-- Whatever has happened to two endpoints that are not in error, deliveries and reads alone can
still hand over everything that was accepted, and then the end of a stream that has ended. -/
theorem can_complete (hnew : ∀ x, TCPConnection.new (cfg x) (random x) = some (net₀ x))
    (hcap : ∀ x, 0 < (cfg x).recvCapacity) {events : List (Side × TCPConnection.Op)}
    (hrun : (machine.restrict Orderly).Admits net₀ events)
    (hlen : ∀ x, (machine.collect (accepted x) net₀ events).length < 2 ^ 31 - 2)
    (halive : ∀ x, (machine.run net₀ events x).sender.stream.error = false) :
    ∃ more, transfers.Admits (machine.run net₀ events) more ∧ ∀ x,
      machine.collect (readOut x.other) net₀ (events ++ more) =
        machine.collect (accepted x) net₀ events ∧
      ((machine.run net₀ events x).sender.stream.isInputEnded = true →
        (machine.run net₀ (events ++ more) x.other).inboundStream.eof = true) := by
  have hreached : Reached net₀ (fun x => machine.collect (accepted x) net₀ events)
      (machine.run net₀ events) := ⟨⟨events, hrun, rfl, fun _ => rfl⟩, halive⟩
  obtain ⟨net', hleads, hend⟩ := hreached.finish_both hnew hcap hlen
  obtain ⟨more, hmore, rfl⟩ := hleads
  refine ⟨more, hmore, fun x => ?_⟩
  obtain ⟨hdone, hempty⟩ := hend x
  have hfinal : transfers.run (machine.run net₀ events) more =
      machine.run net₀ (events ++ more) := (machine.run_append net₀ events more).symm
  rw [hfinal] at hdone hempty
  have hwhole : (machine.restrict (NoWriteAfterEnd x)).Admits net₀ (events ++ more) := by
    refine (Machine.admits_append _ _ _ _).mpr ⟨?_, ?_⟩
    · exact machine.restrict_mono (fun _ _ hwrites => hwrites x) hrun
    · exact machine.restrict_mono (fun _ _ hpassive => (passive_kept hpassive).1 x) hmore
  have haccepted : machine.collect (accepted x) net₀ (events ++ more) =
      machine.collect (accepted x) net₀ events := by
    rw [machine.collect_append, accepted_transfers hmore, List.append_nil]
  obtain ⟨tiles, hopen⟩ := open_run hnew hwhole (haccepted ▸ hlen x)
  rw [haccepted] at hopen
  refine ⟨?_, fun hended => ?_⟩
  · have hrepr := hopen.agrees.represents
    have hcontents : (machine.run net₀ (events ++ more) x.other).inboundStream.contents = [] := by
      rw [ByteStream.contents, hempty, List.take_zero]
    have hwritten := hrepr.written_eq
    change _ ++ (machine.run net₀ (events ++ more) x.other).inboundStream.contents =
      (payloads tiles).take
        (machine.run net₀ (events ++ more) x.other).inboundStream.bytesWritten at hwritten
    have hle := hrepr.bytesWritten_le
    change (machine.run net₀ (events ++ more) x.other).inboundStream.bytesWritten ≤ _ at hle
    have hsent : (payloads tiles).IsPrefix (machine.collect (accepted x) net₀ events) :=
      ⟨_, hopen.accounts.history.sent_eq⟩
    rw [hdone.written_eq] at hwritten hle
    rw [hcontents, List.append_nil, hsent.eq_of_length_le hle, List.take_length] at hwritten
    exact hwritten
  · have hstill : (machine.run net₀ (events ++ more) x).sender.stream.isInputEnded = true := by
      rw [← hfinal]
      exact (ended_transfers hmore x).trans hended
    rw [ByteStream.eof, ByteStream.bufferEmpty, hempty]
    exact (Bool.and_true _).trans (hdone.ended hstill)

end Progress

/-- Side A has ended its stream behind a byte, and nothing of either has been delivered. -/
def undelivered : List (Side × TCPConnection.Op) :=
  handshake ++ [(.A, .write [7]), (.A, .endInputStream)]

theorem can_complete_undelivered :
    ∃ more, transfers.Admits (machine.run smallNet undelivered) more ∧
      machine.collect (readOut .B) smallNet (undelivered ++ more) = [7] ∧
      (machine.run smallNet (undelivered ++ more) .B).inboundStream.eof = true := by
  have hrun : (machine.restrict Orderly).Admits smallNet undelivered := by decide +kernel
  have hlen : ∀ x, (machine.collect (accepted x) smallNet undelivered).length < 2 ^ 31 - 2 := by
    rintro (_ | _) <;> decide +kernel
  have halive : ∀ x, (machine.run smallNet undelivered x).sender.stream.error = false := by
    rintro (_ | _) <;> decide +kernel
  have hbyte : machine.collect (accepted .A) smallNet undelivered = [7] := by decide +kernel
  have hended : (machine.run smallNet undelivered .A).sender.stream.isInputEnded = true := by
    decide +kernel
  obtain ⟨more, hmore, hall⟩ := can_complete smallNet_new (fun x => Nat.succ_pos 3) hrun hlen halive
  obtain ⟨hread, heof⟩ := hall .A
  exact ⟨more, hmore, hread.trans hbyte, heof hended⟩

end Network
end Sponge
