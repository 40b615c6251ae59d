import Sponge.Acknowledgments

/-!
# The clean shutdown of an endpoint

The code asks whether the inbound stream has ended and is assembled, whether the outbound stream
has ended and whether nothing is in flight, but not whether the FIN was sent. What `fill_window`
leaves behind makes up for it: with the window open it sends something until the FIN is out.
-/
namespace Sponge
open MachineWords TCPSender

namespace TCPSender

/-- After the FIN, with the stream empty, the next sequence number counts every byte written. -/
theorem History.next_of_fin {W : List Byte} {tiles : List OrderedSegment} {s : TCPSender}
    (h : History W tiles s) (hfin : s.fin = true) (hempty : s.stream.contents = []) :
    s.nextSeqno = 2 + W.length := by
  have hnext := h.next_eq (h.syn_of_fin hfin)
  have hsent := h.sent_eq
  rw [hempty, List.append_nil] at hsent
  rw [hsent, hfin, if_pos rfl] at hnext
  omega

theorem Sound.idle_of_acknowledged {s : TCPSender} (h : Sound s)
    (hacked : s.checkpoint = s.nextSeqno) : s.bytesInFlight = 0 := by
  obtain ⟨start, hout⟩ := h.outstanding
  rw [hout.bytes_eq, hout.eq_nil_iff.mpr hacked]
  rfl

end TCPSender

namespace TCPConnection

/-- The inbound stream has ended and the outbound one is not yet at its end. -/
def PeerClosedFirst (c : TCPConnection) : Prop :=
  c.inboundStream.inputEnded = true ∧ c.sender.stream.eof = false

/-- The prerequisites of a clean shutdown, as the code tests them. -/
structure Drained (c : TCPConnection) : Prop where
  inbound_ended : c.inboundStream.inputEnded = true
  assembled : c.receiver.unassembledBytes = 0
  outbound_ended : c.sender.stream.isInputEnded = true
  idle : c.sender.bytesInFlight = 0

/-- The endpoint need not linger, or has lingered for long enough. -/
def Waited (c : TCPConnection) : Prop :=
  c.lingerAfterStreamsFinish = false ∨
    10 * c.cfg.rtTimeout.toNat ≤ c.timeSinceLastSegmentReceived

section Shutdown
variable (c : TCPConnection) (setRst : Bool)

theorem peerClosedFirst_iff :
    (c.receiver.streamOut.inputEnded && !c.sender.stream.eof) = true ↔ c.PeerClosedFirst := by
  rw [Bool.and_eq_true, Bool.not_eq_true']
  rfl

theorem drained_and_waited_iff :
    (c.receiver.streamOut.inputEnded && c.receiver.unassembledBytes == 0 &&
      c.sender.stream.inputEnded && c.sender.bytesInFlight == 0 &&
      (!c.lingerAfterStreamsFinish ||
        decide (10 * c.cfg.rtTimeout.toNat ≤ c.timeSinceLastSegmentReceived))) = true ↔
      c.Drained ∧ c.Waited := by
  simp only [Bool.and_eq_true, beq_iff_eq, Bool.or_eq_true, Bool.not_eq_true', decide_eq_true_eq]
  constructor
  · rintro ⟨⟨⟨⟨hended, hasm⟩, hout⟩, hidle⟩, hwait⟩
    exact ⟨⟨hended, hasm, hout, hidle⟩, hwait⟩
  · rintro ⟨⟨hended, hasm, hout, hidle⟩, hwait⟩
    exact ⟨⟨⟨⟨hended, hasm⟩, hout⟩, hidle⟩, hwait⟩

theorem drained_congr {c d : TCPConnection} (hreceiver : d.receiver = c.receiver)
    (hsender : d.sender = c.sender) : d.Drained ↔ c.Drained := by
  constructor
  · rintro ⟨hended, hasm, hout, hidle⟩
    rw [inboundStream, hreceiver] at hended
    rw [hreceiver] at hasm
    rw [hsender] at hout hidle
    exact ⟨hended, hasm, hout, hidle⟩
  · rintro ⟨hended, hasm, hout, hidle⟩
    rw [inboundStream, ← hreceiver] at hended
    rw [← hreceiver] at hasm
    rw [← hsender] at hout hidle
    exact ⟨hended, hasm, hout, hidle⟩

theorem cleanShutdown_linger : c.cleanShutdown.lingerAfterStreamsFinish =
    if c.receiver.streamOut.inputEnded && !c.sender.stream.eof then false
    else c.lingerAfterStreamsFinish := by
  simp only [cleanShutdown]
  split <;> split <;> rfl

theorem cleanShutdown_linger_iff : c.cleanShutdown.lingerAfterStreamsFinish = false ↔
    c.lingerAfterStreamsFinish = false ∨ c.PeerClosedFirst := by
  rw [cleanShutdown_linger]
  split
  · next hpeer => exact iff_of_true rfl (Or.inr (c.peerClosedFirst_iff.mp hpeer))
  · next hpeer => exact (or_iff_left fun h => hpeer (c.peerClosedFirst_iff.mpr h)).symm

theorem cleanShutdown_isActive_iff : c.cleanShutdown.isActive = false ↔
    c.isActive = false ∨ c.Drained ∧ c.cleanShutdown.Waited := by
  -- the second test of the code sees the flag as the first one leaves it
  have hsecond : ∀ d : TCPConnection, (if d.receiver.streamOut.inputEnded &&
      d.receiver.unassembledBytes == 0 && d.sender.stream.inputEnded &&
      d.sender.bytesInFlight == 0 && (!d.lingerAfterStreamsFinish ||
        decide (10 * d.cfg.rtTimeout.toNat ≤ d.timeSinceLastSegmentReceived)) then
      { d with isActive := false } else d).isActive = false ↔
      d.isActive = false ∨ d.Drained ∧ d.Waited := by
    intro d
    split
    · next hcond => exact iff_of_true rfl (Or.inr (d.drained_and_waited_iff.mp hcond))
    · next hcond => exact (or_iff_left fun h => hcond (d.drained_and_waited_iff.mpr h)).symm
  have hwaited : c.cleanShutdown.Waited ↔ Waited { c with
      lingerAfterStreamsFinish := c.cleanShutdown.lingerAfterStreamsFinish } := by
    rw [cleanShutdown_eq]
    rfl
  rw [hwaited, cleanShutdown_linger, cleanShutdown, hsecond]
  split
  · exact or_congr_right (and_congr_left fun _ => drained_congr rfl rfl)
  · exact Iff.rfl

theorem sendSegments_linger_iff : (c.sendSegments setRst).lingerAfterStreamsFinish = false ↔
    c.lingerAfterStreamsFinish = false ∨ (c.sendSegments setRst).PeerClosedFirst := by
  have hlinger := (c.transmit setRst).cleanShutdown_linger_iff
  obtain ⟨hsender, hreceiver⟩ := c.sendSegments_eq setRst
  rw [PeerClosedFirst, inboundStream, hsender, hreceiver]
  exact hlinger

theorem sendSegments_isActive_iff : (c.sendSegments setRst).isActive = false ↔
    c.isActive = false ∨ (c.sendSegments setRst).Drained ∧ (c.sendSegments setRst).Waited := by
  have hactive := (c.transmit setRst).cleanShutdown_isActive_iff
  obtain ⟨hsender, hreceiver⟩ := c.sendSegments_eq setRst
  have hdrained : (c.sendSegments setRst).Drained ↔ (c.transmit setRst).Drained :=
    drained_congr hreceiver hsender
  rw [hdrained]
  exact hactive

theorem sendSegments_error :
    (c.sendSegments setRst).sender.stream.error = c.sender.stream.error := by
  obtain ⟨tiles, hfills⟩ := c.sender.fillWindow_fills
  rw [(c.sendSegments_eq setRst).1]
  exact hfills.frame.error_eq

end Shutdown

/-- The call goes through `_send_segments`. -/
def Sends (c : TCPConnection) : Op → Prop
  | .segmentReceived seg => c.Takes seg
  | .tick ms => c.sentSYN = true ∨
      maxRetxAttempts < (c.sender.tick ms).nConsecutiveRetransmissions
  | .read _ => False
  | .pop _ => False
  | _ => True

/-- How a call ends: with `_send_segments`, before which the endpoint is only shut down with an
error, or without it, having changed neither stream's end nor the flags otherwise. -/
inductive Ends (c : TCPConnection) (op : Op) : TCPConnection → Prop
  | sends (e : TCPConnection)
      (hkept : e.sender.stream.error = true ∨ e.isActive = c.isActive ∧
        e.lingerAfterStreamsFinish = c.lingerAfterStreamsFinish ∧
        e.sender.stream.error = c.sender.stream.error)
      (hlinger : c.lingerAfterStreamsFinish = false → e.lingerAfterStreamsFinish = false) :
      Ends c op (e.sendSegments false)
  | rests (d : TCPConnection) (hsends : ¬ c.Sends op)
      (hended : d.inboundStream.inputEnded = c.inboundStream.inputEnded)
      (heof : d.sender.stream.eof = c.sender.stream.eof)
      (hlinger : d.lingerAfterStreamsFinish = c.lingerAfterStreamsFinish)
      (hsyn : d.sentSYN = c.sentSYN ∧ d.sender.syn = c.sender.syn)
      (hkept : d.sender.stream.error = true ∨ d.isActive = c.isActive ∧
        d.sender.stream.error = c.sender.stream.error) : Ends c op d

section Steps
variable {c : TCPConnection} {op : Op}

theorem takeIn_kept (c : TCPConnection) (seg : TCPSegment) :
    (c.takeIn seg).isActive = c.isActive ∧
      (c.takeIn seg).lingerAfterStreamsFinish = c.lingerAfterStreamsFinish ∧
      (c.takeIn seg).sender.stream.error = c.sender.stream.error := by
  simp only [takeIn]
  split
  · refine ⟨rfl, rfl, ?_⟩
    change (c.sender.ackReceived _ _).stream.error = _
    rcases c.sender.ackReceived_cases seg.header.ackno seg.header.win with ⟨heq, -⟩ | ⟨heq, -⟩
    · rw [heq]
    · obtain ⟨tiles, hfills⟩ := ({ c.sender with rwnd := seg.header.win.toNat }.acknowledge
        (unwrap seg.header.ackno c.sender.isn c.sender.checkpoint)).fillWindow_fills
      rw [heq, hfills.frame.error_eq, acknowledge_eq]
  · exact ⟨rfl, rfl, rfl⟩

theorem uncleanShutdown_kept (c : TCPConnection) :
    c.uncleanShutdown.sender.stream.error = true ∧ (c.lingerAfterStreamsFinish = false →
      c.uncleanShutdown.lingerAfterStreamsFinish = false) := by
  simp only [uncleanShutdown, sendSegments_error, sendSegments_linger_iff]
  split
  · exact ⟨rfl, Or.inl⟩
  · exact ⟨rfl, Or.inl⟩

theorem step_ends (c : TCPConnection) (op : Op) : Ends c op (c.step op) := by
  cases op with
  | segmentReceived seg =>
    change Ends c _ (c.segmentReceived seg)
    cases hrst : seg.header.rst with
    | true =>
      rw [segmentReceived_of_rst hrst]
      refine .rests _ ?_ rfl rfl rfl ⟨rfl, rfl⟩ (Or.inl rfl)
      rintro ⟨hno, -⟩
      rw [hrst] at hno
      cases hno
    | false =>
      by_cases htakes : c.Takes seg
      · have hkept := takeIn_kept { c with timeSinceLastSegmentReceived := 0 } seg
        rw [segmentReceived_of_takes htakes]
        split
        · exact .sends _ (Or.inr hkept) (fun h => hkept.2.1.trans h)
        · exact .sends _ (Or.inr hkept) (fun h => hkept.2.1.trans h)
      · rw [segmentReceived_of_not_takes hrst htakes]
        exact .rests _ htakes rfl rfl rfl ⟨rfl, rfl⟩ (Or.inr ⟨rfl, rfl⟩)
  | write data =>
    refine .sends _ (Or.inr ⟨rfl, rfl, ?_⟩) id
    change (c.sender.stream.write data).error = _
    rw [ByteStream.write_frame]
  | tick ms =>
    change Ends c _ (c.tick ms)
    by_cases hretx : maxRetxAttempts < (c.sender.tick ms).nConsecutiveRetransmissions
    · rw [tick_of_exhausted hretx]
      obtain ⟨herror, hlinger⟩ := (c.prelude (.tick ms)).uncleanShutdown_kept
      exact .sends _ (Or.inl herror) hlinger
    · have hstream : (c.sender.tick ms).stream = c.sender.stream := by rw [tick_eq]
      have hsyn : (c.sender.tick ms).syn = c.sender.syn := by rw [tick_eq]
      rw [tick_of_not_exhausted hretx]
      split
      · exact .sends _ (Or.inr ⟨rfl, rfl, congrArg ByteStream.error hstream⟩) id
      · next hsent =>
        exact .rests _ (not_or.mpr ⟨hsent, hretx⟩) rfl (congrArg ByteStream.eof hstream) rfl
          ⟨rfl, hsyn⟩ (Or.inr ⟨rfl, congrArg ByteStream.error hstream⟩)
  | endInputStream => exact .sends _ (Or.inr ⟨rfl, rfl, rfl⟩) id
  | connect => exact .sends _ (Or.inr ⟨rfl, rfl, rfl⟩) id
  | read len => exact .rests _ id rfl rfl rfl ⟨rfl, rfl⟩ (Or.inr ⟨rfl, rfl⟩)
  | pop len => exact .rests _ id rfl rfl rfl ⟨rfl, rfl⟩ (Or.inr ⟨rfl, rfl⟩)

end Steps

namespace Ends
variable {c d : TCPConnection} {op : Op} (h : Ends c op d)
include h

theorem error (herror : c.sender.stream.error = true) : d.sender.stream.error = true := by
  cases h with
  | sends e hkept hlinger =>
    rw [sendSegments_error]
    rcases hkept with hset | ⟨-, -, hsame⟩
    · exact hset
    · exact hsame.trans herror
  | rests d hsends hended heof hlinger hsyn hkept =>
    rcases hkept with hset | ⟨-, hsame⟩
    · exact hset
    · exact hsame.trans herror

theorem linger (hlinger : c.lingerAfterStreamsFinish = false) :
    d.lingerAfterStreamsFinish = false := by
  cases h with
  | sends e hkept hlatch => exact (e.sendSegments_linger_iff false).mpr (Or.inl (hlatch hlinger))
  | rests d hsends hended heof hsame hsyn hkept => exact hsame.trans hlinger

/-- The latch is set in the call in which the peer turns out to have closed first. -/
theorem latched (hlatched : c.PeerClosedFirst → c.lingerAfterStreamsFinish = false)
    (hpeer : d.PeerClosedFirst) : d.lingerAfterStreamsFinish = false := by
  cases h with
  | sends e hkept hlinger => exact (e.sendSegments_linger_iff false).mpr (Or.inr hpeer)
  | rests d hsends hended heof hsame hsyn hkept =>
    rw [PeerClosedFirst, hended, heof] at hpeer
    exact hsame.trans (hlatched hpeer)

/-- Without an error, the latch is set in no other call. -/
theorem unlatched (hlinger : d.lingerAfterStreamsFinish = false) :
    d.sender.stream.error = true ∨ c.lingerAfterStreamsFinish = false ∨ d.PeerClosedFirst := by
  cases h with
  | sends e hkept hlatch =>
    rcases (e.sendSegments_linger_iff false).mp hlinger with hbefore | hpeer
    · rcases hkept with hset | ⟨-, hsame, -⟩
      · rw [sendSegments_error]
        exact Or.inl hset
      · exact Or.inr (Or.inl (hsame.symm.trans hbefore))
    · exact Or.inr (Or.inr hpeer)
  | rests d hsends hended heof hsame hsyn hkept =>
    exact Or.inr (Or.inl (hsame.symm.trans hlinger))

theorem opened (hopened : c.sentSYN = false → c.sender.syn = false) :
    d.sentSYN = false → d.sender.syn = false := by
  cases h with
  | sends e hkept hlinger =>
    intro hsent
    rw [sendSegments, cleanShutdown_eq] at hsent
    cases hsent
  | rests d hsends hended heof hsame hsyn hkept =>
    rw [hsyn.1, hsyn.2]
    exact hopened

theorem drained (hactive : c.isActive = true) (hclosed : d.isActive = false)
    (herror : d.sender.stream.error = false) : d.Drained ∧ d.Waited := by
  cases h with
  | sends e hkept hlinger =>
    rcases (e.sendSegments_isActive_iff false).mp hclosed with hbefore | hdrained
    · rw [sendSegments_error] at herror
      rcases hkept with hset | ⟨hsame, -⟩
      · rw [herror] at hset
        cases hset
      · rw [hsame, hactive] at hbefore
        cases hbefore
    · exact hdrained
  | rests d hsends hended heof hsame hsyn hkept =>
    rcases hkept with hset | ⟨hkept, -⟩
    · rw [herror] at hset
      cases hset
    · rw [hkept, hactive] at hclosed
      cases hclosed

theorem isActive_eq_false (hsends : c.Sends op) (hdrained : d.Drained) (hwaited : d.Waited) :
    d.isActive = false := by
  cases h with
  | sends e hkept hlinger =>
    exact (e.sendSegments_isActive_iff false).mpr (Or.inr ⟨hdrained, hwaited⟩)
  | rests d hrests hended heof hsame hsyn hkept => exact absurd hsends hrests

end Ends

section Clock
variable (c : TCPConnection) (op : Op)

/-- The milliseconds ticked since the last segment, as an observer counts them. -/
def clock (waited : ℕ) (_ : TCPConnection) : Op → ℕ
  | .segmentReceived _ => 0
  | .tick ms => waited + ms
  | _ => waited

theorem step_time :
    (c.step op).timeSinceLastSegmentReceived = (c.prelude op).timeSinceLastSegmentReceived ∧
      (c.step op).cfg = (c.prelude op).cfg := by
  refine step_induct (I := fun d => d.timeSinceLastSegmentReceived =
    (c.prelude op).timeSinceLastSegmentReceived ∧ d.cfg = (c.prelude op).cfg) ?_ ⟨rfl, rfl⟩
  intro d e hmove hd
  cases hmove with
  | send setRst =>
    rw [sendSegments, cleanShutdown_eq]
    exact hd
  | kill => exact hd
  | empty => exact hd

end Clock

/-- The owner does not write once it has ended the outbound stream. -/
def WritesOpen (c : TCPConnection) : Op → Prop
  | .write _ => c.sender.stream.inputEnded = false
  | _ => True

/-- The end marker of the outbound stream does not wrap, and neither does the clock once the
inbound stream has ended. -/
def Fits (c : TCPConnection) : Op → Prop
  | .write data => c.sender.MarkerFits (.write data)
  | .tick ms => c.inboundStream.inputEnded = true →
      c.timeSinceLastSegmentReceived + ms < 2 ^ 64
  | _ => True

instance (c : TCPConnection) : ∀ op, Decidable (c.WritesOpen op)
  | .write _ => inferInstanceAs (Decidable (_ = _))
  | .segmentReceived _ => .isTrue trivial
  | .tick _ => .isTrue trivial
  | .endInputStream => .isTrue trivial
  | .connect => .isTrue trivial
  | .read _ => .isTrue trivial
  | .pop _ => .isTrue trivial

instance (c : TCPConnection) : ∀ op, Decidable (c.Fits op)
  | .write data => inferInstanceAs (Decidable (c.sender.MarkerFits (.write data)))
  | .tick _ => inferInstanceAs (Decidable (_ → _))
  | .segmentReceived _ => .isTrue trivial
  | .endInputStream => .isTrue trivial
  | .connect => .isTrue trivial
  | .read _ => .isTrue trivial
  | .pop _ => .isTrue trivial

def machine : Machine TCPConnection Op := ⟨step, WritesOpen⟩

instance (c : TCPConnection) (op : Op) : Decidable (machine.enabled c op) :=
  inferInstanceAs (Decidable (c.WritesOpen op))

theorem step_cfg (c : TCPConnection) (op : Op) : (c.step op).cfg = c.cfg := by
  rw [(c.step_time op).2]
  cases op with
  | segmentReceived seg =>
    rcases c.prelude_segmentReceived seg with ⟨-, heq⟩ | ⟨-, heq⟩
    · rw [heq]
    · rw [heq]
      simp only [takeIn]
      split <;> rfl
  | _ => rfl

/-- From the end of the inbound stream on, the clock of the endpoint agrees with the observer's. -/
theorem clock_step {c : TCPConnection} {op : Op} {waited : ℕ} (hfits : c.Fits op)
    (htime : c.inboundStream.inputEnded = true → c.timeSinceLastSegmentReceived = waited)
    (hended : (c.step op).inboundStream.inputEnded = true) :
    (c.step op).timeSinceLastSegmentReceived = clock waited c op := by
  have hbefore : (c.prelude op).inboundStream.inputEnded = true := by
    refine step_receiver (I := fun v => v.streamOut.inputEnded = true →
      (c.prelude op).inboundStream.inputEnded = true) (fun _ hv => hv) id hended
  rw [(c.step_time op).1]
  cases op with
  | segmentReceived seg =>
    rcases c.prelude_segmentReceived seg with ⟨-, heq⟩ | ⟨-, heq⟩
    · rw [heq]
      rfl
    · rw [heq]
      simp only [takeIn]
      split <;> rfl
  | tick ms =>
    rw [clock, ← htime hbefore]
    exact addMod_of_lt (hfits hbefore)
  | write data => exact htime hbefore
  | endInputStream => exact htime hbefore
  | connect => exact htime hbefore
  | read len => exact htime hbefore
  | pop len => exact htime hbefore

/-- All that a clean shutdown needs, after the calls `ops`. -/
structure MayClose (c₀ : TCPConnection) (ops : List Op) : Prop where
  inbound_ended : (machine.run c₀ ops).inboundStream.inputEnded = true
  assembled : (machine.run c₀ ops).receiver.unassembledBytes = 0
  fin_sent : (machine.run c₀ ops).sender.fin = true
  acknowledged : (machine.run c₀ ops).sender.checkpoint = (machine.run c₀ ops).sender.nextSeqno
  next_eq : (machine.run c₀ ops).sender.nextSeqno = 2 + (machine.collect accepted c₀ ops).length
  waited : (∃ early, early <+: ops ∧ (machine.run c₀ early).PeerClosedFirst) ∨
    10 * c₀.cfg.rtTimeout.toNat ≤ machine.track clock 0 c₀ ops

/-- The state after the calls `ops` and what was observed on the way. -/
structure Observed (c₀ : TCPConnection) (ops : List Op) : Prop where
  drives : ∃ tiles,
    Drives (fun _ => True) (machine.collect accepted c₀ ops) tiles (machine.run c₀ ops)
  finished : (machine.run c₀ ops).sender.Finished
  opened : (machine.run c₀ ops).sentSYN = false → (machine.run c₀ ops).sender.syn = false
  cfg_eq : (machine.run c₀ ops).cfg = c₀.cfg
  time_eq : (machine.run c₀ ops).inboundStream.inputEnded = true →
    (machine.run c₀ ops).timeSinceLastSegmentReceived = machine.track clock 0 c₀ ops
  latched : ∀ early, early <+: ops → (machine.run c₀ early).PeerClosedFirst →
    (machine.run c₀ ops).lingerAfterStreamsFinish = false
  unlatched : (machine.run c₀ ops).lingerAfterStreamsFinish = false →
    (machine.run c₀ ops).sender.stream.error = true ∨
      ∃ early, early <+: ops ∧ (machine.run c₀ early).PeerClosedFirst

section Runs
variable {c₀ : TCPConnection} {ops : List Op} {op : Op}

theorem observed_new {cfg : TCPConfig} {random : WrappingInt32} (hnew : new cfg random = some c₀) :
    Observed c₀ [] := by
  have hdrives := (Network.drives_new hnew fun _ => True).1
  have hfinished := (Network.finished_new hnew).1
  obtain ⟨receiver, sender, hreceiver, hsender, rfl⟩ := new_eq_some hnew
  obtain ⟨reassembler, hreassembler, rfl⟩ := TCPReceiver.new_eq_some hreceiver
  obtain ⟨output, houtput, rfl⟩ := StreamReassembler.new_eq_some hreassembler
  obtain ⟨-, rfl⟩ := ByteStream.new_eq_some houtput
  obtain ⟨stream, -, rfl⟩ := TCPSender.new_eq_some hsender
  refine ⟨⟨[], hdrives⟩, hfinished, fun _ => rfl, rfl, fun _ => rfl, ?_, (nomatch ·)⟩
  rintro early hearly ⟨hended, -⟩
  cases List.prefix_nil.mp hearly
  cases hended

theorem Observed.snoc (h : Observed c₀ ops) (hopen : (machine.run c₀ ops).WritesOpen op)
    (hfits : (machine.run c₀ ops).Fits op) : Observed c₀ (ops ++ [op]) := by
  have hends := (machine.run c₀ ops).step_ends op
  have hrun : machine.run c₀ (ops ++ [op]) = (machine.run c₀ ops).step op := machine.run_snoc _ _ _
  constructor
  · obtain ⟨tiles, hdrives⟩ := h.drives
    have hmarker : ∀ data, op = .write data →
        (machine.run c₀ ops).sender.MarkerFits (.write data) := by
      rintro data rfl
      exact hfits
    obtain ⟨more, hmore⟩ := hdrives.step hmarker fun _ _ => trivial
    rw [hrun, machine.collect_snoc]
    exact ⟨_, hmore.drives⟩
  · obtain ⟨tiles, hdrives⟩ := h.drives
    rw [hrun]
    refine finished_step h.finished hdrives.sound.stream_wf ?_
    rintro data rfl hfin
    have hended := (h.finished hfin).1
    rw [show (machine.run c₀ ops).sender.stream.isInputEnded = false from hopen] at hended
    cases hended
  · rw [hrun]
    exact hends.opened h.opened
  · rw [hrun]
    exact (step_cfg _ op).trans h.cfg_eq
  · rw [hrun, machine.track_snoc]
    exact clock_step hfits h.time_eq
  · intro early hearly hpeer
    rw [hrun]
    rcases List.prefix_concat_iff.mp hearly with rfl | hearly
    · rw [hrun] at hpeer
      exact hends.latched (h.latched ops List.prefix_rfl) hpeer
    · exact hends.linger (h.latched early hearly hpeer)
  · intro hlinger
    rw [hrun] at hlinger ⊢
    rcases hends.unlatched hlinger with herror | hbefore | hpeer
    · exact Or.inl herror
    · rcases h.unlatched hbefore with herror | ⟨early, hearly, hpeer⟩
      · exact Or.inl (hends.error herror)
      · exact Or.inr ⟨early, hearly.trans (List.prefix_append _ _), hpeer⟩
    · refine Or.inr ⟨ops ++ [op], List.prefix_rfl, ?_⟩
      rw [hrun]
      exact hpeer

theorem observed_run {cfg : TCPConfig} {random : WrappingInt32} (hnew : new cfg random = some c₀)
    (hops : (machine.restrict Fits).Admits c₀ ops) : Observed c₀ ops := by
  refine (machine.restrict Fits).run_induction (P := fun ops => Observed c₀ ops)
    (observed_new hnew) ?_ hops
  intro ops op _ hen ih
  exact ih.snoc hen.1 hen.2

/-- The calls at whose end the owner may count on the shutdown. -/
def Processes (c : TCPConnection) : Op → Prop
  | .segmentReceived seg => c.Takes seg
  | .tick _ => True
  | .write _ => True
  | .endInputStream => True
  | _ => False

/-- Once the SYN is sent, every call that may close the connection goes through
`_send_segments`. -/
theorem sends_of_processes {c : TCPConnection} (hprocesses : c.Processes op)
    (hopened : (c.step op).sentSYN = true) : c.Sends op := by
  cases op with
  | segmentReceived seg => exact hprocesses
  | tick ms =>
    by_contra hrests
    obtain ⟨hsent, hretx⟩ := not_or.mp hrests
    change (c.tick ms).sentSYN = true at hopened
    rw [tick_of_not_exhausted hretx, if_neg hsent] at hopened
    exact hsent hopened
  | write data => trivial
  | endInputStream => trivial
  | connect => trivial
  | read len => exact hprocesses
  | pop len => exact hprocesses

theorem Observed.mayClose (h : Observed c₀ ops) (hclosed : (machine.run c₀ ops).isActive = false)
    (herror : (machine.run c₀ ops).sender.stream.error = false)
    (hdrained : (machine.run c₀ ops).Drained) (hwaited : (machine.run c₀ ops).Waited) :
    MayClose c₀ ops := by
  have hnoerror : (machine.run c₀ ops).sender.stream.error ≠ true := by
    rw [herror]
    exact Bool.false_ne_true
  obtain ⟨tiles, hdrives⟩ := h.drives
  obtain ⟨hfin, hacked⟩ := (hdrives.closed hclosed).resolve_left hnoerror
  refine ⟨hdrained.inbound_ended, hdrained.assembled, hfin, hacked, ?_, ?_⟩
  · exact hdrives.history.next_of_fin hfin (h.finished hfin).2
  · rw [Waited, h.cfg_eq, h.time_eq hdrained.inbound_ended] at hwaited
    exact hwaited.imp_left fun hlinger => (h.unlatched hlinger).resolve_left hnoerror

theorem Observed.drained_and_waited (h : Observed c₀ ops) (hmay : MayClose c₀ ops) :
    (machine.run c₀ ops).Drained ∧ (machine.run c₀ ops).Waited := by
  obtain ⟨tiles, hdrives⟩ := h.drives
  constructor
  · exact ⟨hmay.inbound_ended, hmay.assembled, (h.finished hmay.fin_sent).1,
      hdrives.sound.idle_of_acknowledged hmay.acknowledged⟩
  · rw [Waited, h.cfg_eq, h.time_eq hmay.inbound_ended]
    refine hmay.waited.imp_left ?_
    rintro ⟨early, hearly, hpeer⟩
    exact h.latched early hearly hpeer

theorem Observed.sentSYN_of_mayClose (h : Observed c₀ ops) (hmay : MayClose c₀ ops) :
    (machine.run c₀ ops).sentSYN = true := by
  obtain ⟨tiles, hdrives⟩ := h.drives
  by_contra hsent
  have hsyn := h.opened (Bool.not_eq_true _ ▸ hsent)
  rw [hdrives.history.syn_of_fin hmay.fin_sent] at hsyn
  cases hsyn

/-- The endpoint shuts down cleanly in just those calls after which it may. -/
theorem clean_shutdown {cfg : TCPConfig} {random : WrappingInt32} (hnew : new cfg random = some c₀)
    (hops : (machine.restrict Fits).Admits c₀ (ops ++ [op])) :
    ((machine.run c₀ ops).isActive = true → (machine.run c₀ (ops ++ [op])).isActive = false →
      (machine.run c₀ (ops ++ [op])).sender.stream.error = false →
      (machine.run c₀ (ops ++ [op])).inboundStream.error = false → MayClose c₀ (ops ++ [op])) ∧
    ((machine.run c₀ ops).Processes op → MayClose c₀ (ops ++ [op]) →
      (machine.run c₀ (ops ++ [op])).isActive = false) := by
  have hafter := observed_run hnew hops
  have hends := (machine.run c₀ ops).step_ends op
  have hrun : (machine.run c₀ ops).step op = machine.run c₀ (ops ++ [op]) :=
    (machine.run_snoc _ _ _).symm
  rw [hrun] at hends
  constructor
  · intro hactive hclosed herror _
    obtain ⟨hdrained, hwaited⟩ := hends.drained hactive hclosed herror
    exact hafter.mayClose hclosed herror hdrained hwaited
  · intro hprocesses hmay
    obtain ⟨hdrained, hwaited⟩ := hafter.drained_and_waited hmay
    have hopened := hafter.sentSYN_of_mayClose hmay
    rw [← hrun] at hopened
    exact hends.isActive_eq_false (sends_of_processes hprocesses hopened) hdrained hwaited

end Runs

section Linger
open Network

/-- The owner closes first: the FIN is acknowledged before the peer's arrives. -/
def activeClose : List Op :=
  [.connect, .segmentReceived { header := { acked 100 6 4 with syn := true } }, .endInputStream,
    .segmentReceived { header := acked 101 7 4 },
    .segmentReceived { header := { acked 101 7 4 with fin := true } }]

theorem clean_shutdown_lingered :
    (machine.run (smallNet .A) activeClose).isActive = true ∧
      (machine.run (smallNet .A) (activeClose ++ [.tick 10000])).isActive = false ∧
      MayClose (smallNet .A) (activeClose ++ [.tick 10000]) :=
  ⟨by decide +kernel, by decide +kernel,
    (clean_shutdown (smallNet_new .A) (by decide +kernel)).1 (by decide +kernel)
      (by decide +kernel) (by decide +kernel) (by decide +kernel)⟩

/-- A tick that takes the clock around to zero keeps the endpoint waiting. -/
theorem lingers_when_clock_wraps :
    machine.Admits (smallNet .A) (activeClose ++ [.tick 1] ++ [.tick (2 ^ 64 - 1)]) ∧
      MayClose (smallNet .A) (activeClose ++ [.tick 1] ++ [.tick (2 ^ 64 - 1)]) ∧
      (machine.run (smallNet .A)
        (activeClose ++ [.tick 1] ++ [.tick (2 ^ 64 - 1)])).isActive = true := by
  refine ⟨by decide +kernel, ⟨?_, ?_, ?_, ?_, ?_, Or.inr ?_⟩, ?_⟩ <;> decide +kernel

end Linger

end TCPConnection
end Sponge
