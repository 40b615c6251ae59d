import Sponge.FillWindow
import Sponge.SenderHistory
import Sponge.TCPConnection

/-!
# The states of a connection

The code has no state machine of its own. It names the state of a sender or a receiver by looking
at a few of their counters; here these names are compared with what the sender has really done.
-/
namespace Sponge
open MachineWords

inductive TCPReceiverStateSummary where
  | error
  | listen
  | synRecv
  | finRecv
  deriving DecidableEq

inductive TCPSenderStateSummary where
  | error
  | closed
  | synSent
  | synAcked
  | finSent
  | finAcked
  deriving DecidableEq

def TCPReceiver.stateSummary (v : TCPReceiver) : TCPReceiverStateSummary :=
  if v.streamOut.error then .error
  else if v.ackno = none then .listen
  else if v.streamOut.inputEnded then .finRecv
  else .synRecv

def TCPSender.stateSummary (s : TCPSender) : TCPSenderStateSummary :=
  if s.stream.error then .error
  else if s.nextSeqno = 0 then .closed
  else if s.nextSeqno = s.bytesInFlight then .synSent
  else if !s.stream.eof then .synAcked
  else if s.nextSeqno < s.stream.bytesWritten + 2 then .synAcked
  else if s.bytesInFlight ≠ 0 then .finSent
  else .finAcked

structure TCPState where
  sender : TCPSenderStateSummary
  receiver : TCPReceiverStateSummary
  active : Bool := true
  lingerAfterStreamsFinish : Bool := true
  deriving DecidableEq

namespace TCPState

/-- The states of the specification. -/
inductive State where
  | listen
  | synRcvd
  | synSent
  | established
  | closeWait
  | lastAck
  | finWait1
  | finWait2
  | closing
  | timeWait
  | closed
  | reset
  deriving DecidableEq

/-- How each of them is expressed. -/
def ofState : State → TCPState
  | .listen => { receiver := .listen, sender := .closed }
  | .synRcvd => { receiver := .synRecv, sender := .synSent }
  | .synSent => { receiver := .listen, sender := .synSent }
  | .established => { receiver := .synRecv, sender := .synAcked }
  | .closeWait =>
    { receiver := .finRecv, sender := .synAcked, lingerAfterStreamsFinish := false }
  | .lastAck => { receiver := .finRecv, sender := .finSent, lingerAfterStreamsFinish := false }
  | .closing => { receiver := .finRecv, sender := .finSent }
  | .finWait1 => { receiver := .synRecv, sender := .finSent }
  | .finWait2 => { receiver := .synRecv, sender := .finAcked }
  | .timeWait => { receiver := .finRecv, sender := .finAcked }
  | .reset =>
    { receiver := .error, sender := .error, lingerAfterStreamsFinish := false, active := false }
  | .closed =>
    { receiver := .finRecv, sender := .finAcked, lingerAfterStreamsFinish := false,
      active := false }

end TCPState

def TCPConnection.state (c : TCPConnection) : TCPState where
  sender := c.sender.stateSummary
  receiver := c.receiver.stateSummary
  active := c.isActive
  lingerAfterStreamsFinish := if c.isActive then c.lingerAfterStreamsFinish else false

namespace TCPSender

section Stream
variable {s t : TCPSender}

theorem TileStep.stream_kept {seg : TCPSegment} (h : TileStep s seg t) :
    t.stream.bytesWritten = s.stream.bytesWritten := by
  cases h with
  | syn hsyn => rw [sendSYN, sendSegment_eq]
  | data n hn hsyn hfin hpending =>
    rw [fillStep_stream hfin]
    rfl

theorem fillWindow_bytesWritten (s : TCPSender) :
    s.fillWindow.stream.bytesWritten = s.stream.bytesWritten := by
  obtain ⟨tiles, hfills⟩ := s.fillWindow_fills
  exact hfills.induct (I := fun t => t.stream.bytesWritten = s.stream.bytesWritten)
    (fun _ _ _ hstep hs => hstep.stream_kept.trans hs) rfl

/-- The stream counts what it accepts, and an operation of the sender marks no error on it. -/
theorem step_stream (s : TCPSender) (op : Op) (hlt : s.stream.bytesWritten < 2 ^ 32) :
    (s.step op).stream.bytesWritten = addMod 32 s.stream.bytesWritten (s.accepted op).length ∧
      (s.step op).stream.error = s.stream.error := by
  have hkept : addMod 32 s.stream.bytesWritten 0 = s.stream.bytesWritten := addMod_zero_right hlt
  have hfill (t : TCPSender) : t.fillWindow.stream.bytesWritten = t.stream.bytesWritten ∧
      t.fillWindow.stream.error = t.stream.error := by
    obtain ⟨tiles, hfills⟩ := t.fillWindow_fills
    exact ⟨t.fillWindow_bytesWritten, hfills.frame.error_eq⟩
  cases op with
  | write data =>
    have hlen : (s.accepted (.write data)).length = s.stream.writeSize data := by
      simp [accepted, s.stream.writeSize_le_length data]
    rw [hlen]
    change (s.stream.write data).bytesWritten = _ ∧ (s.stream.write data).error = _
    rw [ByteStream.write_frame]
    exact ⟨rfl, rfl⟩
  | endInput => exact ⟨hkept.symm, rfl⟩
  | fillWindow => exact ⟨(hfill s).1.trans hkept.symm, (hfill s).2⟩
  | ackReceived ackno windowSize =>
    have hsame : (s.ackReceived ackno windowSize).stream.bytesWritten = s.stream.bytesWritten ∧
        (s.ackReceived ackno windowSize).stream.error = s.stream.error := by
      rcases s.ackReceived_cases ackno windowSize with ⟨heq, -⟩ | ⟨heq, -⟩
      · rw [heq]
        exact ⟨rfl, rfl⟩
      · rw [heq, (hfill _).1, (hfill _).2, acknowledge_eq]
        exact ⟨rfl, rfl⟩
    exact ⟨hsame.1.trans hkept.symm, hsame.2⟩
  | tick ms =>
    rw [TCPSender.step, tick_eq]
    exact ⟨hkept.symm, rfl⟩
  | sendEmptySegment => exact ⟨hkept.symm, rfl⟩

end Stream

/-- The sender without an error, with the bytes `W` accepted and counted. -/
structure Counted (W : List Byte) (s : TCPSender) : Prop where
  sound : Sound s
  history : ∃ tiles, History W tiles s
  finished : s.Finished
  written_eq : s.stream.bytesWritten = W.length
  error_eq : s.stream.error = false

section Counted
variable {W : List Byte} {s : TCPSender}

theorem Counted.step {op : Op} (h : Counted W s) (hop : s.WritesOpen op)
    (hlen : (W ++ s.accepted op).length < 2 ^ 32) : Counted (W ++ s.accepted op) (s.step op) := by
  obtain ⟨tiles, hist⟩ := h.history
  have hwritten := h.written_eq
  rw [List.length_append] at hlen
  -- what waits in the stream is among the accepted bytes
  have hmarker : s.MarkerFits op := by
    cases op with
    | write data =>
      have hcontents := congrArg List.length hist.sent_eq
      have haccepted : (s.accepted (.write data)).length = s.stream.writeSize data := by
        simp [accepted, s.stream.writeSize_le_length data]
      rw [List.length_append, h.sound.stream_wf.length_contents] at hcontents
      change s.stream.endOfBuffer + s.stream.writeSize data < 2 ^ 32
      omega
    | endInput => trivial
    | fillWindow => trivial
    | ackReceived ackno windowSize => trivial
    | tick ms => trivial
    | sendEmptySegment => trivial
  obtain ⟨hstream, herror⟩ := s.step_stream op (by omega)
  obtain ⟨more, hmore, -⟩ := hist.step h.sound op hmarker
  refine ⟨h.sound.step op, ⟨_, hmore⟩, h.finished.step h.sound.stream_wf hop, ?_,
    herror.trans h.error_eq⟩
  rw [hstream, addMod_of_lt (by omega), hwritten, List.length_append]

theorem Counted.next_pos (h : Counted W s) : s.nextSeqno = 0 ↔ s.syn = false := by
  obtain ⟨tiles, hist⟩ := h.history
  constructor
  · intro hzero
    by_contra hsyn
    have hnext := hist.next_eq (Bool.not_eq_false _ ▸ hsyn)
    omega
  · exact h.sound.unsent

/-- Everything is in flight as long as not even the SYN is acknowledged. -/
theorem Counted.all_in_flight_iff (h : Counted W s) (hsyn : s.syn = true) :
    s.nextSeqno = s.bytesInFlight ↔ s.checkpoint = 0 := by
  obtain ⟨tiles, hist⟩ := h.history
  obtain ⟨start, hout⟩ := h.sound.outstanding
  have hend := hout.tiles.end_eq
  have hbytes := hout.bytes_eq
  have hstart := hout.start_le
  constructor
  · intro hall
    have hzero : start = 0 := by omega
    subst hzero
    obtain ⟨rest, hrest, -⟩ := hist.opened hsyn
    -- a queue that tiles the whole space is the whole history, and that starts with the SYN
    have hqueue : s.segmentsInFlight = tiles := by
      obtain ⟨done, hdone⟩ := hist.outstanding
      have hcover := hist.cover
      rw [← hdone] at hcover
      obtain ⟨m, hfront, hback⟩ := Tiles.append_iff.mp hcover
      have hm := hback.start_eq hout.tiles
      have hnil := hfront.eq_nil_iff.mpr hm.symm
      rw [← hdone, hnil, List.nil_append]
    have hfront := hout.front _ _ (hqueue.trans hrest)
    have hone : (⟨0, synSegment s.isn⟩ : OrderedSegment).length = 1 := rfl
    rw [hone] at hfront
    exact Nat.lt_one_iff.mp hfront
  · intro hzero
    omega

theorem Counted.none_in_flight_iff (h : Counted W s) :
    s.bytesInFlight = 0 ↔ s.checkpoint = s.nextSeqno := by
  obtain ⟨start, hout⟩ := h.sound.outstanding
  have hend := hout.tiles.end_eq
  rw [← hout.eq_nil_iff, hout.tiles.eq_nil_iff, hout.bytes_eq]
  omega

/-- With the FIN sent, the stream is at its end and every byte has a number of its own. -/
theorem Counted.of_fin (h : Counted W s) (hfin : s.fin = true) :
    s.syn = true ∧ s.stream.eof = true ∧ s.nextSeqno = s.stream.bytesWritten + 2 := by
  obtain ⟨tiles, hist⟩ := h.history
  obtain ⟨hended, hempty⟩ := h.finished hfin
  have hsyn := hist.syn_of_fin hfin
  have hnext := hist.next_eq hsyn
  have hsent := hist.sent_eq
  rw [hempty, List.append_nil] at hsent
  rw [hsent, hfin, if_pos rfl, ← h.written_eq] at hnext
  refine ⟨hsyn, ?_, by omega⟩
  rw [ByteStream.eof, hended, h.sound.stream_wf.bufferEmpty_iff.mpr hempty]
  rfl

theorem Counted.next_le (h : Counted W s) (hfin : s.fin = false) :
    s.nextSeqno < s.stream.bytesWritten + 2 := by
  obtain ⟨tiles, hist⟩ := h.history
  have hsent := congrArg List.length hist.sent_eq
  rw [List.length_append, ← h.written_eq] at hsent
  cases hsyn : s.syn with
  | false =>
    have hzero := h.sound.unsent hsyn
    omega
  | true =>
    have hnext := hist.next_eq hsyn
    rw [hfin, if_neg Bool.false_ne_true] at hnext
    omega

end Counted

/-- The state of a sender in terms of what it has sent and what is acknowledged. -/
def phase (s : TCPSender) : TCPSenderStateSummary :=
  if s.syn = false then .closed
  else if s.checkpoint = 0 then .synSent
  else if s.fin = false then .synAcked
  else if s.checkpoint < s.nextSeqno then .finSent
  else .finAcked

theorem Counted.stateSummary_eq {W : List Byte} {s : TCPSender} (h : Counted W s) :
    s.stateSummary = s.phase := by
  rw [stateSummary, phase, h.error_eq, if_neg Bool.false_ne_true]
  by_cases hsyn : s.syn = false
  · rw [if_pos (h.next_pos.mpr hsyn), if_pos hsyn]
  rw [if_neg (mt h.next_pos.mp hsyn), if_neg hsyn]
  have hall := h.all_in_flight_iff (Bool.not_eq_false _ ▸ hsyn)
  by_cases hzero : s.checkpoint = 0
  · rw [if_pos (hall.mpr hzero), if_pos hzero]
  rw [if_neg (mt hall.mp hzero), if_neg hzero]
  cases hfin : s.fin with
  | false =>
    rw [if_pos rfl, if_pos (h.next_le hfin), ite_self]
  | true =>
    obtain ⟨-, heof, hnext⟩ := h.of_fin hfin
    obtain ⟨start, hout⟩ := h.sound.outstanding
    have hle := hout.checkpoint_le
    rw [heof, if_neg (by decide), if_neg (by omega), if_neg (show ¬ true = false by decide)]
    by_cases hacked : s.checkpoint = s.nextSeqno
    · rw [if_neg (not_not_intro (h.none_in_flight_iff.mpr hacked)), if_neg (by omega)]
    · rw [if_pos (mt h.none_in_flight_iff.mp hacked), if_pos (by omega)]

section Run
variable {capacity : ℕ} {retxTimeout : UInt16} {fixedIsn : Option WrappingInt32}
  {random : WrappingInt32} {s₀ : TCPSender} {ops : List Op}

theorem counted_new (hnew : new capacity retxTimeout fixedIsn random = some s₀) :
    Counted [] s₀ := by
  obtain ⟨hwritten, herror⟩ : s₀.stream.bytesWritten = 0 ∧ s₀.stream.error = false := by
    obtain ⟨stream, hstream, rfl⟩ := new_eq_some hnew
    rw [(ByteStream.new_eq_some hstream).2]
    exact ⟨rfl, rfl⟩
  exact ⟨sound_new hnew, ⟨[], history_new hnew⟩, finished_new hnew, hwritten, herror⟩

theorem counted_run (hnew : new capacity retxTimeout fixedIsn random = some s₀)
    (hops : (machine.restrict WritesOpen).Admits s₀ ops)
    (hlen : (machine.collect accepted s₀ ops).length < 2 ^ 32) :
    Counted (machine.collect accepted s₀ ops) (machine.run s₀ ops) := by
  revert hlen
  refine (machine.restrict WritesOpen).run_induction
    (P := fun ops => (machine.collect accepted s₀ ops).length < 2 ^ 32 →
      Counted (machine.collect accepted s₀ ops) (machine.run s₀ ops))
    (fun _ => counted_new hnew) ?_ hops
  intro past op _ hop ih hlen
  have hpast := machine.collect_length_le accepted s₀ past [op]
  rw [machine.collect_snoc] at hlen ⊢
  rw [machine.run_snoc]
  rw [machine.collect_snoc] at hpast
  exact (ih (by omega)).step hop.2 hlen

/-- The summary says what has been sent and acknowledged. -/
theorem stateSummary_faithful (hnew : new capacity retxTimeout fixedIsn random = some s₀)
    (hops : (machine.restrict WritesOpen).Admits s₀ ops)
    (hlen : (machine.collect accepted s₀ ops).length < 2 ^ 32 - 2) :
    let s := machine.run s₀ ops
    s.stream.error = false ∧
    (s.stateSummary = .closed ↔ s.syn = false) ∧
    (s.stateSummary = .synSent ↔ s.syn = true ∧ s.checkpoint = 0) ∧
    (s.stateSummary = .finAcked ↔ s.fin = true ∧ s.checkpoint = s.nextSeqno) ∧
    (s.stateSummary = .finSent ↔
      s.fin = true ∧ 0 < s.checkpoint ∧ s.checkpoint < s.nextSeqno) ∧
    (s.stateSummary = .synAcked ↔ s.syn = true ∧ s.checkpoint ≠ 0 ∧
      ¬ (s.fin = true ∧ s.checkpoint = s.nextSeqno) ∧
      ¬ (s.fin = true ∧ 0 < s.checkpoint ∧ s.checkpoint < s.nextSeqno)) := by
  intro s
  have h : Counted _ s := counted_run hnew hops (by omega)
  obtain ⟨start, hout⟩ := h.sound.outstanding
  have hle := hout.checkpoint_le
  have hnext : s.syn = true → s.nextSeqno ≠ 0 := fun hsyn hzero => by
    rw [h.next_pos.mp hzero] at hsyn
    cases hsyn
  have hfin : s.fin = true → s.syn = true := fun hfin => (h.of_fin hfin).1
  refine ⟨h.error_eq, ?_⟩
  rw [h.stateSummary_eq, phase]
  cases hsyn : s.syn with
  | false =>
    have hunfinished : s.fin = false := by
      by_contra hset
      rw [hfin (Bool.not_eq_false _ ▸ hset)] at hsyn
      cases hsyn
    simp [hunfinished]
  | true =>
    have hpos := hnext hsyn
    by_cases hzero : s.checkpoint = 0
    · simp [hzero, Ne.symm hpos]
    · cases hsent : s.fin with
      | false => simp [hzero]
      | true =>
        by_cases hacked : s.checkpoint = s.nextSeqno
        · simp [hacked, hpos]
        · have hlt : s.checkpoint < s.nextSeqno := by omega
          simp [hzero, hacked, hlt, Nat.pos_of_ne_zero hzero]

theorem stateSummary_faithful_finSent :
    ∃ s₀, new 8 1000 (some ⟨5⟩) ⟨0⟩ = some s₀ ∧
      let s := machine.run s₀
        [.fillWindow, .ackReceived ⟨6⟩ 4, .write [1, 2, 3], .endInput, .fillWindow]
      s.fin = true ∧ s.checkpoint = 1 ∧ s.nextSeqno = 5 ∧ s.stateSummary = .finSent := by
  obtain ⟨s₀, hnew, hops, hlen, hfin, hcheckpoint, hnext⟩ :
      ∃ s₀, new 8 1000 (some ⟨5⟩) ⟨0⟩ = some s₀ ∧
        let ops : List Op :=
          [.fillWindow, .ackReceived ⟨6⟩ 4, .write [1, 2, 3], .endInput, .fillWindow]
        (machine.restrict WritesOpen).Admits s₀ ops ∧
        (machine.collect accepted s₀ ops).length < 2 ^ 32 - 2 ∧ (machine.run s₀ ops).fin = true ∧
        (machine.run s₀ ops).checkpoint = 1 ∧ (machine.run s₀ ops).nextSeqno = 5 :=
    ⟨_, rfl, by decide +kernel, by decide +kernel, by decide +kernel, by decide +kernel,
      by decide +kernel⟩
  refine ⟨s₀, hnew, hfin, hcheckpoint, hnext, ?_⟩
  refine (stateSummary_faithful hnew hops hlen).2.2.2.2.1.mpr ⟨hfin, ?_, ?_⟩
  · rw [hcheckpoint]
    exact Nat.one_pos
  · rw [hcheckpoint, hnext]
    decide

end Run
end TCPSender
end Sponge
