import Sponge.Backoff
import Sponge.SocketNetwork

/-!
# The end of a socket

`_fully_acked` is set when the owner has closed and nothing is in flight. That is enough: every
call that may leave the FIN unsent fills the window before it returns.

A thread ends by itself when no rule is interested any more. If both threads end in that way and no
stream is in error, each owner has read all the other one wrote, and its end.
-/
namespace Sponge

namespace TCPSender

/-- The FIN is sent, and all that was sent is acknowledged. -/
structure Done (s : TCPSender) : Prop where
  syn : s.syn = true
  fin : s.fin = true
  acked : s.checkpoint = s.nextSeqno

/-- With nothing in flight after the end of the input, there is nothing left to send. -/
def Settled (s : TCPSender) : Prop :=
  s.stream.isInputEnded = true → s.bytesInFlight = 0 → s.Done

theorem Done.step {s : TCPSender} (h : s.Done) (op : Op) : (s.step op).Done := by
  have hfill : ∀ t : TCPSender, t.Done → t.fillWindow.Done := by
    intro t ht
    obtain ⟨tiles, hfills⟩ := t.fillWindow_fills
    rw [(hfills.eq_of_fin ht.syn ht.fin).2]
    exact ht
  cases op with
  | write data => exact ⟨h.syn, h.fin, h.acked⟩
  | endInput => exact ⟨h.syn, h.fin, h.acked⟩
  | fillWindow => exact hfill s h
  | ackReceived ackno windowSize =>
    -- an acknowledgment beyond the checkpoint would be beyond what was sent
    change (s.ackReceived ackno windowSize).Done
    rcases s.ackReceived_cases ackno windowSize with ⟨heq, -⟩ | ⟨-, hlo, hhi⟩
    · rw [heq]
      exact ⟨h.syn, h.fin, h.acked⟩
    · have hacked := h.acked
      omega
  | tick ms =>
    change (s.tick ms).Done
    rw [tick_eq]
    exact ⟨h.syn, h.fin, h.acked⟩
  | sendEmptySegment => exact ⟨h.syn, h.fin, h.acked⟩

theorem Settled.frame {s t : TCPSender} (h : s.Settled)
    (hended : t.stream.isInputEnded = s.stream.isInputEnded)
    (hbytes : t.bytesInFlight = s.bytesInFlight) (hsyn : t.syn = s.syn) (hfin : t.fin = s.fin)
    (hcheckpoint : t.checkpoint = s.checkpoint) (hnext : t.nextSeqno = s.nextSeqno) :
    t.Settled := by
  intro hinput hidle
  have hdone := h (hended.symm.trans hinput) (hbytes.symm.trans hidle)
  exact ⟨hsyn.trans hdone.syn, hfin.trans hdone.fin,
    hcheckpoint.trans (hdone.acked.trans hnext.symm)⟩

theorem Sound.settled {s : TCPSender} (h : Sound s) :
    Settled { s.fillWindow with segmentsOut := [] } := by
  intro hended hidle
  obtain ⟨tiles, hfills⟩ := s.fillWindow_fills
  obtain ⟨hfin, hacked⟩ := h.closed_of_idle (hfills.frame.ended_eq.symm.trans hended) hidle
  exact ⟨s.fillWindow_syn, hfin, hacked⟩

end TCPSender

namespace TCPConnection
open TCPSender
variable {c : TCPConnection} {op : Op}

theorem step_done (h : c.sender.Done) : (c.step op).sender.Done :=
  step_sender (fun _ op hs => hs.step op) (fun _ hs => ⟨hs.syn, hs.fin, hs.acked⟩)
    (fun _ hs => ⟨hs.syn, hs.fin, hs.acked⟩) h

theorem step_sound (h : Sound c.sender) : Sound (c.step op).sender :=
  step_sender (fun _ op hs => hs.step op)
    (fun _ hs => hs.frame hs.stream_wf rfl rfl rfl rfl rfl hs.rwnd_lt) (fun _ hs => hs.setError) h

theorem Move.sound {d : TCPConnection} (hmove : Move c d) (h : Sound c.sender) :
    Sound d.sender := by
  cases hmove with
  | send setRst =>
    rw [(c.sendSegments_eq setRst).1]
    exact h.fillWindow.frame h.fillWindow.stream_wf rfl rfl rfl rfl rfl h.fillWindow.rwnd_lt
  | kill => exact h.setError
  | empty => exact h.sendEmptySegment

theorem uncleanShutdown_sound (h : Sound c.sender) : Sound c.uncleanShutdown.sender := by
  simp only [uncleanShutdown]
  split
  · exact Move.sound (.send true) (Move.sound .empty (Move.sound .kill h))
  · exact Move.sound (.send true) (Move.sound .kill h)

theorem sendSegments_settled (h : Sound c.sender) (setRst : Bool) :
    (c.sendSegments setRst).sender.Settled := by
  rw [(c.sendSegments_eq setRst).1]
  exact h.settled

/-- A call that gives the sender something to send fills the window. -/
theorem step_settled (hsound : Sound c.sender) (h : c.sender.Settled) :
    (c.step op).sender.Settled := by
  cases op with
  | segmentReceived seg =>
    change (c.segmentReceived seg).sender.Settled
    cases hrst : seg.header.rst with
    | true =>
      rw [segmentReceived_of_rst hrst]
      exact h.frame rfl rfl rfl rfl rfl rfl
    | false =>
      by_cases htakes : c.Takes seg
      · have htaken : Sound (takeIn { c with timeSinceLastSegmentReceived := 0 } seg).sender := by
          rw [takeIn_sender]
          split
          · exact hsound.ackReceived _ _
          · exact hsound
        rw [segmentReceived_of_takes htakes]
        split
        · exact sendSegments_settled (c := sendEmptySegment _) htaken.sendEmptySegment _
        · exact sendSegments_settled htaken _
      · rw [segmentReceived_of_not_takes hrst htakes]
        exact h
  | write data =>
    exact sendSegments_settled (c := { c with sender := c.sender.writeStream data })
      (hsound.writeStream data) false
  | tick ms =>
    change (c.tick ms).sender.Settled
    have hticked : Sound (c.prelude (.tick ms)).sender := hsound.tick ms
    by_cases hretx : maxRetxAttempts < (c.sender.tick ms).nConsecutiveRetransmissions
    · rw [tick_of_exhausted hretx]
      exact sendSegments_settled (uncleanShutdown_sound hticked) false
    · rw [tick_of_not_exhausted hretx]
      split
      · exact sendSegments_settled hticked false
      · change (c.sender.tick ms).Settled
        rw [tick_eq]
        exact h.frame rfl rfl rfl rfl rfl rfl
  | endInputStream =>
    exact sendSegments_settled (c := { c with sender := c.sender.endStream })
      hsound.endStream false
  | connect => exact sendSegments_settled hsound false
  | read len => exact h
  | pop len => exact h

/-- An endpoint that is closed without an error has seen the end of the inbound stream. -/
def EndSeen (c : TCPConnection) : Prop :=
  c.isActive = false → c.sender.stream.error = true ∨ c.inboundStream.inputEnded = true

theorem EndSeen.step (h : c.EndSeen) (hmono : c.inboundStream.inputEnded = true →
    (c.step op).inboundStream.inputEnded = true) : (c.step op).EndSeen := by
  intro hclosed
  have hends := c.step_ends op
  cases hactive : c.isActive with
  | false => exact (h hactive).imp hends.error hmono
  | true =>
    cases herror : (c.step op).sender.stream.error with
    | true => exact Or.inl rfl
    | false => exact Or.inr (hends.drained hactive hclosed herror).1.inbound_ended

theorem step_dead (op : Op) (h : c.isActive = false) : (c.step op).isActive = false :=
  step_induct (fun _ _ hmove hd => hmove.dead hd) ((c.prelude_isActive op).trans h)

end TCPConnection

namespace Network
open TCPSender
variable {cfg : Side → TCPConfig} {random : Side → WrappingInt32} {net₀ : Net}
  {events : List (Side × TCPConnection.Op)}

theorem endSeen_run (hnew : ∀ z, TCPConnection.new (cfg z) (random z) = some (net₀ z))
    (x : Side) (hrun : machine.Admits net₀ events)
    (hlen : (machine.collect (accepted x) net₀ events).length < 2 ^ 31 - 2) :
    (machine.run net₀ events x.other).EndSeen := by
  revert hlen
  refine machine.run_induction (P := fun events =>
    (machine.collect (accepted x) net₀ events).length < 2 ^ 31 - 2 →
      (machine.run net₀ events x.other).EndSeen) ?_ ?_ hrun
  · intro _ hclosed
    obtain ⟨v, s, -, -, heq⟩ := TCPConnection.new_eq_some (hnew x.other)
    change (net₀ x.other).isActive = false at hclosed
    rw [heq] at hclosed
    cases hclosed
  · intro past e hpast hen ih hlen
    have hshort := (machine.collect_length_le _ _ _ _).trans_lt hlen
    rw [Machine.run_snoc]
    rcases step_cases (machine.run net₀ past) x e with
      ⟨-, -, hy, -⟩ | ⟨hside, -, hy, -⟩
    · rw [hy]
      exact ih hshort
    · obtain ⟨tiles, hchannel⟩ := channel_run hnew x hpast hshort
      have hsent := hchannel.sent_isPrefix.length_le.trans_lt hshort
      rw [hy]
      exact (ih hshort).step
        (TCPConnection.receiver_mono hchannel.agrees hsent (hchannel.fair hen hside)).2

/-- Everything was sent and acknowledged, so the other side has written all of it. -/
theorem Delivering.delivered {W W' taken : List Byte} {tiles tiles' : List OrderedSegment}
    {x y : TCPConnection} (h : Delivering W W' taken tiles tiles' x y) (hdone : x.sender.fin = true)
    (hacked : x.sender.checkpoint = x.sender.nextSeqno) :
    taken ++ y.inboundStream.contents = W := by
  have hchannel := h.acked.channel
  have hist := hchannel.drives.history
  have hnext := hist.next_eq (hist.syn_of_fin hdone)
  have hbound := h.acked.checkpoint_le
  have hsent : payloads tiles = W := by
    rw [← hist.sent_eq, (h.finished hdone).2, List.append_nil]
  have hwritten := hchannel.agrees.represents.written_eq
  rw [hdone, if_pos rfl] at hnext
  have hall : (payloads tiles).length ≤ y.receiver.reassembler.output.bytesWritten := by
    change _ ≤ y.inboundStream.bytesWritten
    omega
  rw [← hsent, ← List.take_of_length_le hall]
  exact hwritten

end Network

namespace TCPSpongeSocket
namespace Session
variable {α κ δ : Type} {A : FdAdapter α κ δ}

/-- What the end of the owner's bytes, `_fully_acked` and `_inbound_shutdown` stand for. -/
structure Confirmed (s : Session α) : Prop where
  sound : TCPSender.Sound s.tcp.sender
  settled : s.tcp.sender.Settled
  ended : s.threadData.wrapper.eof = true → s.tcp.sender.stream.inputEnded = true
  acked : s.fullyAcked = true → s.tcp.sender.Done
  shut : s.inboundShutdown = true → s.threadData.shutWr = true

variable {s s' : Session α}

theorem Confirmed.step (h : s.Confirmed) (op : TCPConnection.Op) (htcp : s'.tcp = s.tcp.step op)
    (hended : s'.threadData.wrapper.eof = true → s.threadData.wrapper.eof = true ∨
      op = .endInputStream)
    (hacked : s'.fullyAcked = true → s.fullyAcked = true ∨
      s'.tcp.sender.stream.inputEnded = true ∧ s'.tcp.sender.bytesInFlight = 0)
    (hshut : s'.inboundShutdown = true → s'.threadData.shutWr = true) : s'.Confirmed := by
  have hsettled : s'.tcp.sender.Settled := htcp ▸ TCPConnection.step_settled h.sound h.settled
  refine ⟨htcp ▸ TCPConnection.step_sound h.sound, hsettled, fun heof => ?_, fun hflag => ?_,
    hshut⟩
  · rw [htcp, TCPConnection.step_inputEnded]
    rcases hended heof with hbefore | hop
    · split
      · rfl
      · exact h.ended hbefore
    · rw [hop]
  · rcases hacked hflag with hbefore | ⟨hinput, hidle⟩
    · exact htcp ▸ TCPConnection.step_done (h.acked hbefore)
    · exact hsettled hinput hidle

theorem Confirmed.receive (h : s.Confirmed) (d : δ) (seg : Option TCPSegment) (adapter : α) :
    (s.receive A d seg adapter).Confirmed := by
  have hflag : (s.receive A d seg adapter).fullyAcked = true → s.fullyAcked = true ∨
      s.threadData.wrapper.eof = true ∧
        (s.receive A d seg adapter).tcp.sender.bytesInFlight = 0 := by
    intro hflag
    rcases Bool.or_eq_true_iff.mp hflag with hbefore | hnow
    · exact Or.inl hbefore
    · obtain ⟨heof, hidle⟩ := (Bool.and_eq_true _ _).mp hnow
      exact Or.inr ⟨heof, beq_iff_eq.mp hidle⟩
  cases seg with
  | none =>
    refine ⟨h.sound, h.settled, h.ended, fun hset => ?_, h.shut⟩
    rcases hflag hset with hbefore | ⟨heof, hidle⟩
    · exact h.acked hbefore
    · exact h.settled (h.ended heof) hidle
  | some seg =>
    refine h.step (.segmentReceived seg) rfl Or.inl (fun hset => ?_) h.shut
    refine (hflag hset).imp_right fun ⟨heof, hidle⟩ => ⟨?_, hidle⟩
    exact (s.tcp.step_inputEnded (.segmentReceived seg)).trans (h.ended heof)

theorem Confirmed.endInput (h : s.Confirmed) : s.endInput.Confirmed :=
  h.step .endInputStream rfl Or.inl Or.inl h.shut

theorem Confirmed.bytesIn (h : s.Confirmed) {calls : SystemCalls δ}
    (hcallback : s.bytesIn calls = .ok s') : s'.Confirmed := by
  obtain ⟨data, -, ⟨rfl, hopen⟩ | rfl⟩ := bytesIn_eq_ok hcallback
  · refine h.step (.write data) rfl (fun heof => ?_) Or.inl h.shut
    rw [hopen] at heof
    cases heof
  · -- the end of the owner's bytes is noted and passed on in one call
    have hwritten : Confirmed { s with tcp := s.tcp.write data } :=
      h.step (.write data) rfl Or.inl Or.inl h.shut
    exact hwritten.step .endInputStream rfl (fun _ => Or.inr rfl) Or.inl h.shut

theorem Confirmed.bytesOut (h : s.Confirmed) {calls : SystemCalls δ}
    (hcallback : s.bytesOut calls = .ok s') : s'.Confirmed := by
  obtain ⟨n, -, -, -, ⟨-, rfl⟩ | ⟨-, -, rfl⟩⟩ := bytesOut_eq_ok hcallback
  · exact h.step (.pop n) rfl Or.inl Or.inl fun _ => rfl
  · exact h.step (.pop n) rfl Or.inl Or.inl h.shut

theorem Confirmed.sendFront (h : s.Confirmed) {seg : TCPSegment}
    (hsend : s.sendFront A seg = .ok s') : s'.Confirmed := by
  obtain ⟨adapter, -, hret⟩ := bind_eq_ok hsend
  cases hret
  exact ⟨h.sound, h.settled, h.ended, h.acked, h.shut⟩

theorem Confirmed.tick (h : s.Confirmed) (ms : ℕ) : (s.tick A ms).Confirmed := by
  rw [Session.tick]
  split
  · exact h.step (.tick ms) rfl Or.inl Or.inl h.shut
  · exact h

theorem confirmed_keeps :
    (eventLoop A).Keeps (fun _ _ => True) Confirmed (fun _ _ => True) where
  interested := fun _ _ _ _ _ => trivial
  cancel := by
    intro r s s' hs hcancel
    refine ⟨?_, fun _ _ _ => trivial⟩
    rcases cancel_eq_ok hcancel with ⟨-, rfl⟩ | rfl
    · exact hs.endInput
    · exact hs
  callback := by
    intro r calls s s' _ hs _ hcallback
    refine ⟨?_, fun _ _ _ => trivial⟩
    cases r with
    | datagramsIn =>
      obtain ⟨d, seg, adapter, -, -, rfl⟩ := datagramsIn_eq_ok hcallback
      exact hs.receive _ seg adapter
    | bytesIn => exact hs.bytesIn hcallback
    | bytesOut => exact hs.bytesOut hcallback
    | segmentsOut => exact foldlM_invariant (fun _ _ _ hs hsend => hs.sendFront hsend) hs hcallback

end Session

section Threads
variable {α κ δ : Type} {A : FdAdapter α κ δ} {t t' : Thread α} {u : Turn δ}

/-- The rules that are left want nothing. -/
structure Rested (t : Thread α) : Prop where
  closed : RuleName.datagramsIn ∈ t.rules → t.session.tcp.isActive = false
  emptied : RuleName.bytesOut ∈ t.rules → t.session.tcp.inboundStream.bufferEmpty = true ∧
    (t.session.tcp.inboundStream.eof = true → t.session.inboundShutdown = true)

theorem endInput_inboundStream (s : Session α) :
    s.endInput.tcp.inboundStream = s.tcp.inboundStream :=
  congrArg TCPReceiver.streamOut
    (TCPConnection.sendSegments_eq { s.tcp with sender := s.tcp.sender.endStream } false).2

/-- A loop that exits of itself leaves the thread at rest. -/
theorem rested_of_exit {poll : Poll RuleName (SystemCalls δ)} {rules kept : List RuleName}
    {s s' : Session α} (phase : Phase) (hpoll : poll ≠ .failed true)
    (hexit : (eventLoop A).waitNextEvent rules s poll = .ok (.exit, kept, s')) :
    Rested ⟨s', kept, phase⟩ := by
  obtain ⟨pollfds, hset, hnone⟩ := EventLoop.waitNextEvent_exit hpoll hexit
  -- the order of the rules plays no part: every cancellation keeps both facts
  have horder : rules.Pairwise fun _ _ => True := List.pairwise_of_forall fun _ _ => trivial
  constructor
  · intro hmem
    refine EventLoop.setUp_idle (J := fun s => s.tcp.isActive = false) (fun _ hidle => hidle) ?_
      horder hmem hset hnone
    intro q _ s s' hs hcancel
    rcases cancel_eq_ok hcancel with ⟨-, rfl⟩ | rfl
    · exact TCPConnection.step_dead .endInputStream hs
    · exact hs
  · intro hmem
    refine EventLoop.setUp_idle (J := fun s => s.tcp.inboundStream.bufferEmpty = true ∧
      (s.tcp.inboundStream.eof = true → s.inboundShutdown = true)) (fun s hidle => ?_) ?_
      horder hmem hset hnone
    · change (!s.tcp.inboundStream.bufferEmpty ||
        (s.tcp.inboundStream.eof || s.tcp.inboundStream.error) && !s.inboundShutdown) = false
        at hidle
      obtain ⟨hempty, hshut⟩ := Bool.or_eq_false_iff.mp hidle
      refine ⟨by simpa using hempty, fun heof => ?_⟩
      simpa [heof] using hshut
    · intro q _ s s' hs hcancel
      rcases cancel_eq_ok hcancel with ⟨-, rfl⟩ | rfl
      · rw [endInput_inboundStream]
        exact hs
      · exact hs

theorem turn_rested (hu : u.Undisturbed) (hturn : t.turn A u = .ok t')
    (h : t.phase = .finished → Rested t) (hphase : t'.phase = .finished) : Rested t' := by
  rw [Thread.turn] at hturn
  split at hturn
  · next hgoes =>
    obtain ⟨⟨result, rules, session⟩, hwait, hturn⟩ := bind_eq_ok hturn
    dsimp only at hturn
    split at hturn
    · next hends =>
      cases hturn
      rcases hends with hexit | habort
      · subst hexit
        exact rested_of_exit _ hu.uninterrupted hwait
      · rw [hu.running] at habort
        cases habort
    · cases hturn
      change t.phase = .finished at hphase
      rw [hphase] at hgoes
      cases hgoes
  · next hstops =>
    cases hturn
    cases hp : t.phase with
    | finished => exact ⟨(h hp).closed, (h hp).emptied⟩
    | main =>
      rw [hp] at hstops
      exact absurd rfl hstops
    | connecting =>
      change t.phase.next = .finished at hphase
      rw [hp] at hphase
      cases hphase
    | accepting =>
      change t.phase.next = .finished at hphase
      rw [hp] at hphase
      cases hphase

/-- What is left for the rules of a closed endpoint: bytes for the owner, the end of them, and
segments. -/
def remaining (s : Session α) : ℕ :=
  let stream := s.tcp.inboundStream
  stream.bufferSize + (if (stream.eof || stream.error) && !s.inboundShutdown then 1 else 0) +
    if s.tcp.segmentsOut.isEmpty then 0 else 1

/-- The endpoint is closed, and nothing keeps the rules from going on. -/
structure Closed (Inv : List TCPSegment → α → Prop) (s : Session α) : Prop where
  healthy : s.Healthy Inv
  inactive : s.tcp.isActive = false

section Closed
variable {Inv : List TCPSegment → α → Prop} {s s' : Session α}

theorem Closed.endInput (h : Closed Inv s) : Closed Inv s.endInput :=
  ⟨h.healthy.endInput, TCPConnection.step_dead .endInputStream h.inactive⟩

theorem endInput_segmentsOut (s : Session α) :
    ∃ more, s.endInput.tcp.segmentsOut = s.tcp.segmentsOut ++ more :=
  ⟨_, TCPConnection.sendSegments_segmentsOut { s.tcp with sender := s.tcp.sender.endStream } false⟩

theorem remaining_endInput_lt (s : Session α) : remaining s.endInput < remaining s + 2 := by
  have hshut : s.endInput.inboundShutdown = s.inboundShutdown := rfl
  simp only [remaining, endInput_inboundStream, hshut]
  split <;> split <;> split <;> omega

/-- A byte that waits is offered. -/
theorem Closed.offered_ne_nil (h : Closed Inv s) (hsome : 0 < s.tcp.inboundStream.bufferSize) :
    s.offered ≠ [] := by
  have hwf := h.healthy.sized.output_wf
  have hend : s.tcp.inboundStream.bufferSize ≤ s.tcp.inboundStream.buffer.length :=
    hwf.length_buffer.symm ▸ hwf.end_le
  rw [← List.length_pos_iff, Session.offered, ByteStream.peekOutput, List.length_take]
  omega

/-- Rule 3 hands out bytes or passes on the end. -/
theorem Closed.remaining_bytesOut_lt (h : Closed Inv s) {calls : SystemCalls δ}
    (hinterest : ((eventLoop A).rule .bytesOut).interest s = true)
    (hcallback : s.bytesOut calls = .ok s') : remaining s' < remaining s := by
  obtain ⟨n, -, hle, hpos, hs'⟩ := Session.bytesOut_eq_ok hcallback
  have hmax := s.length_offered_le
  have hsize := s.length_offered_le_bufferSize
  have hpopped : (s.handed n).tcp.inboundStream.bufferSize ≤ s.tcp.inboundStream.bufferSize - n :=
    MachineWords.subMod_le (hle.trans hsize) (by omega)
  -- afterwards there is no end left to pass on
  have hafter : remaining s' = (s.handed n).tcp.inboundStream.bufferSize +
      if s.tcp.segmentsOut.isEmpty then 0 else 1 := by
    rcases hs' with ⟨-, rfl⟩ | ⟨heof, herror, rfl⟩
    · rw [remaining]
      exact congrArg (· + _) (by simp [Session.shut])
    · rw [remaining, heof, herror]
      rfl
  rw [hafter, remaining]
  change (!s.tcp.inboundStream.bufferEmpty ||
    (s.tcp.inboundStream.eof || s.tcp.inboundStream.error) && !s.inboundShutdown) = true
    at hinterest
  rcases Bool.or_eq_true_iff.mp hinterest with hbytes | hend
  · have hsome : 0 < s.tcp.inboundStream.bufferSize := by
      simpa [ByteStream.bufferEmpty, ByteStream.bufferSize, Nat.pos_iff_ne_zero] using hbytes
    have hn := hpos (h.offered_ne_nil hsome)
    split <;> omega
  · rw [if_pos hend]
    omega

/-- Rule 4 leaves no segment. -/
theorem Closed.remaining_segmentsOut_lt (hlaw : A.Lawful Inv) (h : Closed Inv s)
    (hinterest : ((eventLoop A).rule .segmentsOut).interest s = true)
    (hcallback : s.segmentsOut A = .ok s') : remaining s' < remaining s := by
  obtain ⟨given, hgiven⟩ := h.healthy.adapter
  obtain ⟨adapter, adapterFd, -, hsend⟩ := Session.segmentsOut_eq hlaw hgiven h.healthy.regular
  cases hsend.symm.trans hcallback
  change (!s.tcp.segmentsOut.isEmpty) = true at hinterest
  rw [Bool.not_eq_true'] at hinterest
  change _ + _ + 0 < _ + _ + if s.tcp.segmentsOut.isEmpty then 0 else 1
  rw [hinterest, if_neg Bool.false_ne_true]
  exact Nat.lt_succ_self _

/-- Only rules 3 and 4 are interested when the endpoint is closed. -/
theorem Closed.interested (h : Closed Inv s) {r : RuleName}
    (hinterest : ((eventLoop A).rule r).interest s = true) : r = .bytesOut ∨ r = .segmentsOut := by
  cases r with
  | datagramsIn => exact absurd (h.inactive.symm.trans hinterest) Bool.false_ne_true
  | bytesIn =>
    change (s.tcp.isActive && !s.outboundShutdown && _) = true at hinterest
    rw [h.inactive] at hinterest
    cases hinterest
  | bytesOut => exact Or.inl rfl
  | segmentsOut => exact Or.inr rfl

theorem Closed.bytesOut (h : Closed Inv s) {calls : SystemCalls δ}
    (hcallback : s.bytesOut calls = .ok s') :
    Closed Inv s' ∧ s'.tcp.segmentsOut = s.tcp.segmentsOut := by
  obtain ⟨n, -, hle, -, ⟨-, rfl⟩ | ⟨-, -, rfl⟩⟩ := Session.bytesOut_eq_ok hcallback
  · exact ⟨⟨(h.healthy.handed hle).shut, h.inactive⟩, rfl⟩
  · exact ⟨⟨h.healthy.handed hle, h.inactive⟩, rfl⟩

theorem Closed.segmentsOut (hlaw : A.Lawful Inv) (h : Closed Inv s)
    (hcallback : s.segmentsOut A = .ok s') :
    Closed Inv s' ∧ s'.tcp.inboundStream = s.tcp.inboundStream ∧
      s'.inboundShutdown = s.inboundShutdown := by
  obtain ⟨given, hgiven⟩ := h.healthy.adapter
  obtain ⟨adapter, adapterFd, hadapter, hsend⟩ :=
    Session.segmentsOut_eq hlaw hgiven h.healthy.regular
  cases hsend.symm.trans hcallback
  exact ⟨⟨⟨⟨_, hadapter⟩, ⟨h.healthy.regular.sender, List.forall_mem_nil _⟩, h.healthy.sized,
    h.healthy.open_fd⟩, h.inactive⟩, rfl, rfl⟩

/-- Interest in rule 4 outlives what the other rules do. -/
theorem interested_segmentsOut {more : List TCPSegment}
    (hmore : s'.tcp.segmentsOut = s.tcp.segmentsOut ++ more)
    (h : ((eventLoop A).rule .segmentsOut).interest s = true) :
    ((eventLoop A).rule .segmentsOut).interest s' = true := by
  change (!s.tcp.segmentsOut.isEmpty) = true at h
  change (!s'.tcp.segmentsOut.isEmpty) = true
  rw [hmore]
  cases hqueue : s.tcp.segmentsOut with
  | nil =>
    rw [hqueue] at h
    cases h
  | cons seg queue => rfl

theorem interested_bytesOut (hstream : s'.tcp.inboundStream = s.tcp.inboundStream)
    (hshut : s'.inboundShutdown = s.inboundShutdown)
    (h : ((eventLoop A).rule .bytesOut).interest s = true) :
    ((eventLoop A).rule .bytesOut).interest s' = true := by
  change (!s'.tcp.inboundStream.bufferEmpty || (s'.tcp.inboundStream.eof ||
    s'.tcp.inboundStream.error) && !s'.inboundShutdown) = true
  rw [hstream, hshut]
  exact h

theorem closed_winds (hlaw : A.Lawful Inv) :
    (eventLoop A).Winds (Session.Answers A) (Closed Inv)
      (fun r s => ((eventLoop A).rule r).interest s = true) remaining 2 where
  interested := fun _ _ _ _ hinterest => hinterest
  cancel := by
    intro r s s' hs hcancel
    rcases cancel_eq_ok hcancel with ⟨-, rfl⟩ | rfl
    · obtain ⟨more, hmore⟩ := endInput_segmentsOut s
      refine ⟨hs.endInput, fun q _ hq => ?_⟩
      rcases hs.interested hq with rfl | rfl
      · exact interested_bytesOut (endInput_inboundStream s) rfl hq
      · exact interested_segmentsOut hmore hq
    · exact ⟨hs, fun _ _ hq => hq⟩
  callback := by
    intro r calls s s' _ hs hinterest hcallback
    rcases hs.interested hinterest with rfl | rfl
    · obtain ⟨hs', hsame⟩ := hs.bytesOut hcallback
      refine ⟨hs', fun q hne hq => ?_⟩
      rcases hs.interested hq with rfl | rfl
      · exact absurd rfl hne
      · exact interested_segmentsOut (hsame.trans (List.append_nil _).symm) hq
    · obtain ⟨hs', hstream, hshut⟩ := hs.segmentsOut hlaw hcallback
      refine ⟨hs', fun q hne hq => ?_⟩
      rcases hs.interested hq with rfl | rfl
      · exact interested_bytesOut hstream hshut hq
      · exact absurd rfl hne
  cancel_lt := by
    intro r s s' _ hcancel
    rcases cancel_eq_ok hcancel with ⟨-, rfl⟩ | rfl
    · exact remaining_endInput_lt s
    · omega
  callback_lt := by
    intro r calls s s' _ hs hinterest hcallback
    rcases hs.interested hinterest with rfl | rfl
    · exact hs.remaining_bytesOut_lt hinterest hcallback
    · exact hs.remaining_segmentsOut_lt hlaw hinterest hcallback

/-- A turn that is served ends the thread of a closed endpoint or brings it nearer to its end. -/
theorem Closed.turn (hlaw : A.Lawful Inv) (hclosed : Closed Inv t.session)
    (hrules : t.rules.Nodup) (hphase : t.phase = .main) (hu : u.Honest A) (hserves : u.poll.Serves)
    (hturn : t.turn A u = .ok t') : t'.phase = .finished ∨ Closed Inv t'.session ∧
      t'.rules.Nodup ∧ t'.phase = .main ∧
      remaining t'.session + 2 * t'.rules.length < remaining t.session + 2 * t.rules.length := by
  rw [Thread.turn, hphase] at hturn
  obtain ⟨⟨result, rules, session⟩, hwait, hturn⟩ := bind_eq_ok hturn
  have hwinds := closed_winds hlaw
  obtain ⟨hsession, hsub⟩ :=
    EventLoop.waitNextEvent_keeps hwinds.toKeeps hu.answers hrules hclosed hwait
  dsimp only at hturn
  split at hturn
  · cases hturn
    exact Or.inl rfl
  · next hgoes =>
    cases hturn
    have hless := (EventLoop.waitNextEvent_winds hwinds hu.answers hserves hrules hclosed
      hwait).resolve_left fun hexit => hgoes (Or.inl hexit)
    have hsame : session.tick A u.elapsed = session := by
      rw [Session.tick, if_neg (by rw [hsession.inactive]; exact Bool.false_ne_true)]
    rw [hsame]
    exact Or.inr ⟨hsession, hsub.nodup hrules, rfl, hless⟩

theorem finished_stays (hphase : t.phase = .finished) (hturn : t.turn A u = .ok t') :
    t'.phase = .finished := by
  rw [Thread.turn, hphase] at hturn
  cases hturn
  rfl

theorem Closed.run (hlaw : A.Lawful Inv) {turns : List (Turn δ)} (hclosed : Closed Inv t.session)
    (hrules : t.rules.Nodup) (hphase : t.phase = .main)
    (hturns : ∀ u ∈ turns, u.Honest A ∧ u.poll.Serves)
    (hlong : remaining t.session + 2 * t.rules.length < turns.length)
    (hrun : turns.foldlM (Thread.turn A) t = .ok t') : t'.phase = .finished := by
  refine foldlM_reaches (μ := fun t : Thread α => remaining t.session + 2 * t.rules.length)
    (I := fun t => Closed Inv t.session ∧ t.rules.Nodup ∧ t.phase = .main)
    (D := fun t => t.phase = .finished) (fun _ _ _ hp hturn => finished_stays hp hturn) ?_
    ⟨hclosed, hrules, hphase⟩ hlong hrun
  rintro t u hu t' ⟨hc, hr, hp⟩ hturn
  obtain ⟨hhonest, hserves⟩ := hturns u hu
  rcases hc.turn hlaw hr hp hhonest hserves hturn with hdone | ⟨hc', hr', hp', hless⟩
  · exact Or.inl hdone
  · exact Or.inr ⟨⟨hc', hr', hp'⟩, hless⟩

end Closed

/-- Once its endpoint is closed, a thread that is served ends after a bounded number of turns, or is
killed by a broken pipe. -/
theorem closed_thread_ends {Inv : List TCPSegment → α → Prop} (hlaw : A.Lawful Inv) {t₀ : Thread α}
    (hstart : Starts A Inv t₀) {before after : List (Turn δ)} (hbefore : ∀ u ∈ before, u.Honest A)
    (hreach : before.foldlM (Thread.turn A) t₀ = .ok t) (hphase : t.phase = .main)
    (hclosed : t.session.tcp.isActive = false)
    (hafter : ∀ u ∈ after, u.Honest A ∧ u.poll.Serves)
    (hlong : t.session.tcp.inboundStream.bufferSize + 2 * t.rules.length + 2 < after.length) :
    (∃ t', after.foldlM (Thread.turn A) t = .ok t' ∧ t'.phase = .finished) ∨
      after.foldlM (Thread.turn A) t = .error "writev: Broken pipe" := by
  have hsane : Sane Inv t := sane_run hlaw hstart hbefore hreach
  cases hrun : after.foldlM (Thread.turn A) t with
  | error e =>
    have hthrows : ThrowsOnly Session.brokenPipe (after.foldlM (Thread.turn A) t) :=
      .foldlM (fun _ u hu _ hsane hturn => hsane.turn hlaw (hafter u hu).1 hturn)
        (fun _ u hu hsane => hsane.throws hlaw (hafter u hu).1) hsane
    exact Or.inr (congrArg Except.error (hthrows e hrun))
  | ok t' =>
    refine Or.inl ⟨t', rfl, Closed.run hlaw ⟨hsane.healthy, hclosed⟩ hsane.rules hphase hafter ?_
      hrun⟩
    have hfew : remaining t.session ≤ t.session.tcp.inboundStream.bufferSize + 2 := by
      rw [remaining]
      split <;> split <;> omega
    omega

section Small
open TCPOverUDPSocketAdapter

/-- The connection is reset before anything was received. -/
def refused : List TCPSegment :=
  [{ header := { seqno := ⟨5⟩, syn := true } }, { header := { seqno := ⟨6⟩, rst := true } },
    { header := { seqno := ⟨6⟩, rst := true } }]

def refusedThread : Except String (Thread TCPOverUDPSocketAdapter) :=
  (refused.map (slowTurn false)).foldlM (Thread.turn adapter) (smallSockets .B)

theorem refusedThread_isSome : refusedThread.toOption.isSome = true := by decide +kernel

end Small

theorem closed_thread_ends_refused :
    let t := refusedThread.toOption.get refusedThread_isSome
    let after := (List.replicate 11 { header := { seqno := ⟨6⟩ } }).map (slowTurn true)
    (∃ t', after.foldlM (Thread.turn TCPOverUDPSocketAdapter.adapter) t = .ok t' ∧
        t'.phase = .finished) ∨
      after.foldlM (Thread.turn TCPOverUDPSocketAdapter.adapter) t =
        .error "writev: Broken pipe" := by
  refine closed_thread_ends TCPOverUDPSocketAdapter.lawful (smallSockets_starts .B)
    (slowTurn_honest false refused (by decide +kernel))
    (eq_ok_of_toOption (Option.some_get _).symm) (by decide +kernel) (by decide +kernel)
    (fun u hu => ⟨slowTurn_honest true _ (by decide +kernel) u hu, ?_⟩) (by decide +kernel)
  obtain ⟨seg, -, rfl⟩ := List.mem_map.mp hu
  exact fun i => ⟨rfl, rfl⟩

theorem Starts.confirmed {Inv : List TCPSegment → α → Prop} (h : Starts A Inv t) :
    t.session.Confirmed := by
  obtain ⟨cfg, random, tcp, adapter, htcp, -, -, -, hsession⟩ := h.session_eq
  have hnew : Session.Confirmed { tcp, adapter } := by
    have hsound : TCPSender.Sound tcp.sender := (Network.drives_new htcp fun _ => True).1.sound
    obtain ⟨v, s, -, hs, rfl⟩ := TCPConnection.new_eq_some htcp
    obtain ⟨stream, hstream, rfl⟩ := TCPSender.new_eq_some hs
    obtain ⟨-, rfl⟩ := ByteStream.new_eq_some hstream
    refine ⟨hsound, ?_, ?_, ?_, ?_⟩
    · intro hended
      cases hended
    · intro heof
      cases heof
    · intro hflag
      cases hflag
    · intro hflag
      cases hflag
  rcases hsession with hsession | hsession
  · rw [hsession]
    exact hnew
  · rw [hsession]
    exact hnew.step .connect rfl Or.inl Or.inl hnew.shut

end Threads
end TCPSpongeSocket

namespace SocketNetwork
open TCPSpongeSocket Network
variable {α κ δ : Type} {A : FdAdapter α κ δ} {Inv : List TCPSegment → α → Prop}
  {net : Sockets α} {run : List (Side × Turn δ)}

/-- All that was sent and acknowledged is at the other side. -/
theorem delivered_of_done (hlaw : A.Lawful Inv) (hstart : ∀ z, Starts A Inv (net z))
    (hrun : (machine A).Admits net run)
    (hlen : ∀ z, ((machine A).run net run z).session.threadData.received.length < 2 ^ 31 - 2)
    {x : Side} (hfin : ((machine A).run net run x).session.tcp.sender.fin = true)
    (hacked : ((machine A).run net run x).session.tcp.sender.checkpoint =
      ((machine A).run net run x).session.tcp.sender.nextSeqno) :
    ((machine A).run net run x.other).session.threadData.sent ++
        ((machine A).run net run x.other).session.tcp.inboundStream.contents =
      ((machine A).run net run x).session.threadData.received := by
  obtain ⟨cfg, random, net₀, events, hnew, hlinked⟩ := endpoints_of_run hlaw hstart hrun
  have hguarded := Network.machine.restrict_mono
    (D := NoWriteAfterEnd x) (fun _ _ h => h x) hlinked.admits
  have hshort : ∀ z, (Network.machine.collect (accepted z) net₀ events).length < 2 ^ 31 - 2 :=
    fun z => (hlinked.traced z).received ▸ hlen z
  obtain ⟨tiles, tiles', h⟩ := delivering_run hnew hguarded hshort
  obtain ⟨given, -, hx⟩ := (hlinked.traced x).tcp
  obtain ⟨given', -, hy⟩ := (hlinked.traced x.other).tcp
  rw [hx, hy] at h
  rw [(hlinked.traced x).received, (hlinked.traced x.other).sent]
  exact h.delivered hfin hacked

/-- An endpoint that closed without an error has all its bytes acknowledged and has seen the end of
the other side's. -/
theorem closed_of_run (hlaw : A.Lawful Inv) (hstart : ∀ z, Starts A Inv (net z))
    (hrun : (machine A).Admits net run)
    (hlen : ∀ z, ((machine A).run net run z).session.threadData.received.length < 2 ^ 31 - 2)
    {x : Side} (hclosed : ((machine A).run net run x).session.tcp.isActive = false)
    (herror : ((machine A).run net run x).session.tcp.sender.stream.error = false) :
    ((machine A).run net run x).session.tcp.sender.fin = true ∧
      ((machine A).run net run x).session.tcp.sender.checkpoint =
        ((machine A).run net run x).session.tcp.sender.nextSeqno ∧
      ((machine A).run net run x).session.tcp.inboundStream.inputEnded = true := by
  obtain ⟨cfg, random, net₀, events, hnew, hlinked⟩ := endpoints_of_run hlaw hstart hrun
  have hadmits := Network.machine.admits_of_restrict hlinked.admits
  have hshort : ∀ z, (Network.machine.collect (accepted z) net₀ events).length < 2 ^ 31 - 2 :=
    fun z => (hlinked.traced z).received ▸ hlen z
  obtain ⟨given, -, hx⟩ := (hlinked.traced x).tcp
  obtain ⟨tiles, hchannel⟩ := channel_run hnew x hadmits (hshort x)
  have hends := endSeen_run hnew x.other hadmits (hshort x.other)
  rw [Side.other_other, hx] at hends
  rw [hx] at hchannel
  rcases hchannel.drives.closed hclosed with hset | ⟨hfin, hacked⟩
  · exact absurd (herror.symm.trans hset) Bool.false_ne_true
  · refine ⟨hfin, hacked, ?_⟩
    rcases hends hclosed with hset | hended
    · exact absurd (herror.symm.trans hset) Bool.false_ne_true
    · exact hended

theorem confirmed_run (hstart : ∀ z, Starts A Inv (net z)) (hrun : (machine A).Admits net run)
    (x : Side) : ((machine A).run net run x).session.Confirmed := by
  have hall : ∀ z, ((machine A).run net run z).session.Confirmed ∧
      ((machine A).run net run z).rules.Nodup := by
    refine (machine A).invariant (I := fun net : Sockets α => ∀ z, (net z).session.Confirmed ∧
      (net z).rules.Nodup) (fun z => ⟨(hstart z).confirmed, (hstart z).sane.rules⟩) ?_ hrun
    intro net e hnet hen
    refine step_keeps (P := fun t => t.session.Confirmed ∧ t.rules.Nodup) hen ?_ hnet
    rintro t hturn ⟨hsession, hrules⟩
    have hany : e.2.poll.Answers fun _ _ => True := by
      cases e.2.poll <;> first | trivial | exact fun _ => trivial
    obtain ⟨hkept, hsub⟩ := Thread.turn_keeps Session.confirmed_keeps
      (fun _ ms hs => hs.tick ms) hany hrules hsession hturn
    exact ⟨hkept, hsub.nodup hrules⟩
  exact (hall x).1

theorem rested_run (hstart : ∀ z, Starts A Inv (net z))
    (hrun : ((machine A).restrict fun _ e => e.2.Undisturbed).Admits net run) {x : Side}
    (hphase : ((machine A).run net run x).phase = .finished) :
    Rested ((machine A).run net run x) := by
  refine ((machine A).restrict fun _ e => e.2.Undisturbed).invariant
    (I := fun net : Sockets α => ∀ z, (net z).phase = .finished → Rested (net z)) ?_ ?_ hrun x
    hphase
  · intro z hfinished
    obtain ⟨-, -, -, -, -, -, -, hgoes, -⟩ := (hstart z).session_eq
    exact absurd hfinished hgoes
  · intro net e hnet hen
    exact step_keeps (P := fun t => t.phase = .finished → Rested t) hen.1
      (fun t hturn ht => turn_rested hen.2 hturn ht) hnet

/-- Once `_fully_acked` is set, all bytes of the owner are at the other side. -/
theorem fully_acked_delivered (hlaw : A.Lawful Inv) (hstart : ∀ z, Starts A Inv (net z))
    (hrun : (machine A).Admits net run)
    (hlen : ∀ z, ((machine A).run net run z).session.threadData.received.length < 2 ^ 31 - 2)
    {x : Side} (hflag : ((machine A).run net run x).session.fullyAcked = true) :
    ((machine A).run net run x.other).session.threadData.sent ++
        ((machine A).run net run x.other).session.tcp.inboundStream.contents =
      ((machine A).run net run x).session.threadData.received := by
  have hdone := (confirmed_run hstart hrun x).acked hflag
  exact delivered_of_done hlaw hstart hrun hlen hdone.fin hdone.acked

/-- Both owners close, side A first, and side A lingers. -/
def closing : List (Side × Action) :=
  opening.append [(.A, { owner := some [] }), (.A, { deliver := some 1 }),
    (.B, { deliver := some 3 }), (.B, { owner := some [] }), (.A, { deliver := some 3 }), (.A, {}),
    (.B, { deliver := some 4 }), (.B, {}), (.A, { elapsed := 10000 }), (.A, {})]

theorem fully_acked_delivered_byte :
    (smallRun closing .A).session.fullyAcked = true ∧
      (smallRun closing .B).session.threadData.sent ++
          (smallRun closing .B).session.tcp.inboundStream.contents =
        (smallRun closing .A).session.threadData.received := by
  have hrun := play_admits smallSockets closing (by decide +kernel)
  have h := fully_acked_delivered (x := .A) TCPOverUDPSocketAdapter.lawful smallSockets_starts
    ((machine _).admits_of_restrict hrun) (fun z => by cases z <;> decide +kernel)
    (by decide +kernel)
  rw [Side.other] at h
  unfold smallRun
  exact ⟨by decide +kernel, h⟩

/-- When both threads have ended by themselves and no stream is in error, each owner has been given
exactly the other owner's bytes, and the end of them. -/
theorem owners_get_all (hlaw : A.Lawful Inv) (hstart : ∀ z, Starts A Inv (net z))
    (hrun : ((machine A).restrict fun _ e => e.2.Undisturbed).Admits net run)
    (hlen : ∀ z, ((machine A).run net run z).session.threadData.received.length < 2 ^ 31 - 2)
    (hphase : ∀ z, ((machine A).run net run z).phase = .finished)
    (hrules : ∀ z, RuleName.datagramsIn ∈ ((machine A).run net run z).rules ∧
      RuleName.bytesOut ∈ ((machine A).run net run z).rules)
    (hclean : ∀ z, ((machine A).run net run z).session.tcp.sender.stream.error = false)
    (x : Side) :
    ((machine A).run net run x.other).session.threadData.sent =
        ((machine A).run net run x).session.threadData.received ∧
      ((machine A).run net run x.other).session.threadData.shutWr = true := by
  have hrested := fun z => rested_run hstart hrun (hphase z)
  have hadmits := (machine A).admits_of_restrict hrun
  have hclosed := fun z => (hrested z).closed (hrules z).1
  obtain ⟨hfin, hacked, -⟩ := closed_of_run hlaw hstart hadmits hlen (hclosed x) (hclean x)
  obtain ⟨-, -, hended⟩ :=
    closed_of_run hlaw hstart hadmits hlen (hclosed x.other) (hclean x.other)
  obtain ⟨hempty, hshut⟩ := (hrested x.other).emptied (hrules x.other).2
  have hnone : ((machine A).run net run x.other).session.tcp.inboundStream.contents = [] := by
    rw [ByteStream.contents, beq_iff_eq.mp hempty, List.take_zero]
  have hall := delivered_of_done hlaw hstart hadmits hlen hfin hacked
  rw [hnone, List.append_nil] at hall
  refine ⟨hall, (confirmed_run hstart hadmits x.other).shut (hshut ?_)⟩
  rw [ByteStream.eof, hempty, Bool.and_true]
  exact hended

theorem owners_get_all_byte :
    (smallRun closing .A).session.threadData.received = [7] ∧
      (smallRun closing .B).session.threadData.sent =
        (smallRun closing .A).session.threadData.received ∧
      (smallRun closing .B).session.threadData.shutWr = true := by
  have h := owners_get_all TCPOverUDPSocketAdapter.lawful smallSockets_starts
    (play_admits smallSockets closing (by decide +kernel))
    (fun z => by cases z <;> decide +kernel) (fun z => by cases z <;> decide +kernel)
    (fun z => by cases z <;> decide +kernel) (fun z => by cases z <;> decide +kernel) .A
  rw [Side.other] at h
  unfold smallRun
  exact ⟨by decide +kernel, h⟩

end SocketNetwork
end Sponge
