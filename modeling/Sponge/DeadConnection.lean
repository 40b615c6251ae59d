import Sponge.CleanShutdown

/-!
# What a dead endpoint still sends

No entry point of the connection asks whether it is still active, so an endpoint that has been
reset, has given up or has closed goes on sending whenever it has something to send. `Quiet` says,
call by call, when it has not.
-/
namespace Sponge
open MachineWords

namespace TCPSender

/-- `fill_window` has nothing to send. -/
def Idle (s : TCPSender) : Prop :=
  s.syn = true ∧ (s.remainingWindow = 0 ∨ s.fin = true ∨ s.hasPending = false)

/-- What `ack_received` does before it fills the window. -/
def noteAck (s : TCPSender) (ackno : WrappingInt32) (windowSize : UInt16) : TCPSender :=
  let absAckno := unwrap ackno s.isn s.checkpoint
  let s := { s with rwnd := windowSize.toNat }
  if s.nextSeqno < absAckno ∨ absAckno ≤ s.checkpoint then s else s.acknowledge absAckno

section Idle
variable {s : TCPSender}

instance (s : TCPSender) : Decidable s.Idle := inferInstanceAs (Decidable (_ ∧ _))

theorem fillWindow_of_idle (h : s.Idle) : s.fillWindow = s := by
  obtain ⟨hsyn, hnothing⟩ := h
  apply fillWindow_of_not_looping hsyn
  rintro ⟨hroom, hfin, hpending⟩
  simp_all

theorem fillWindow_pushes (h : ¬ s.Idle) : s.fillWindow.segmentsOut ≠ [] := by
  cases hsyn : s.syn with
  | false =>
    rw [fillWindow_of_not_syn hsyn, sendSYN, sendSegment_eq]
    simp
  | true =>
    simp only [Idle, hsyn, true_and, not_or, Bool.not_eq_true, Bool.not_eq_false] at h
    obtain ⟨t, hstep, tiles, hrest⟩ := fillWindow_of_looping hsyn h
    rw [hrest.segmentsOut_eq, hstep.sent.segmentsOut_eq]
    simp

/-- The window is filled without sending anything only from an idle sender. -/
theorem fillWindow_segmentsOut_eq_nil_iff :
    s.fillWindow.segmentsOut = [] ↔ s.segmentsOut = [] ∧ s.Idle := by
  by_cases h : s.Idle
  · rw [fillWindow_of_idle h, and_iff_left h]
  · exact iff_of_false (fillWindow_pushes h) fun hidle => h hidle.2

theorem noteAck_segmentsOut (s : TCPSender) (ackno : WrappingInt32) (windowSize : UInt16) :
    (s.noteAck ackno windowSize).segmentsOut = s.segmentsOut := by
  simp only [noteAck]
  split
  · rfl
  · rw [acknowledge_eq]

theorem ackReceived_eq (s : TCPSender) (ackno : WrappingInt32) (windowSize : UInt16) :
    s.ackReceived ackno windowSize = s.noteAck ackno windowSize ∨
      s.ackReceived ackno windowSize = (s.noteAck ackno windowSize).fillWindow := by
  rcases s.ackReceived_cases ackno windowSize with ⟨heq, hstale⟩ | ⟨heq, hlo, hhi⟩
  · left
    simp only [noteAck]
    rw [heq, if_pos hstale]
  · right
    simp only [noteAck]
    rw [heq, if_neg (by omega)]

theorem ackReceived_segmentsOut_eq_nil_iff (ackno : WrappingInt32) (windowSize : UInt16) :
    (s.ackReceived ackno windowSize).fillWindow.segmentsOut = [] ↔
      s.segmentsOut = [] ∧ (s.noteAck ackno windowSize).Idle := by
  have hfill := fillWindow_segmentsOut_eq_nil_iff (s := s.noteAck ackno windowSize)
  rw [noteAck_segmentsOut] at hfill
  rcases s.ackReceived_eq ackno windowSize with heq | heq
  · rw [heq, hfill]
  · rw [heq, fillWindow_segmentsOut_eq_nil_iff, hfill]
    constructor
    · exact fun h => h.1
    · intro h
      refine ⟨h, ?_⟩
      rw [fillWindow_of_idle h.2]
      exact h.2

/-- The retransmission timer does not expire within the next `ms` milliseconds. -/
def Unexpired (s : TCPSender) (ms : ℕ) : Prop :=
  s.segmentsInFlight = [] ∨ addMod 64 s.timeSpent ms < s.rto

instance (s : TCPSender) (ms : ℕ) : Decidable (s.Unexpired ms) :=
  inferInstanceAs (Decidable (_ ∨ _))

theorem tick_segmentsOut_eq_nil_iff (ms : ℕ) :
    (s.tick ms).segmentsOut = [] ↔ s.segmentsOut = [] ∧ s.Unexpired ms := by
  rw [tick_segmentsOut, List.append_eq_nil_iff, Unexpired]
  refine and_congr_right fun _ => ?_
  cases s.segmentsInFlight with
  | nil => simp
  | cons t ts =>
    dsimp only
    split <;> simp <;> omega

theorem Unexpired.tick_retransmissions {ms : ℕ} (h : s.Unexpired ms) :
    (s.tick ms).nConsecutiveRetransmissions = s.nConsecutiveRetransmissions := by
  have hretransmit : ({ s with timeSpent := addMod 64 s.timeSpent ms } : TCPSender).retransmit =
      { s with timeSpent := addMod 64 s.timeSpent ms } := by
    rw [retransmit]
    split
    · rfl
    · next t ts hqueue =>
      rcases h with hnone | htime
      · change s.segmentsInFlight = t :: ts at hqueue
        rw [hnone] at hqueue
        cases hqueue
      · exact if_neg (Nat.not_le.mpr htime)
  simp only [tick, hretransmit]
  split <;> rfl

theorem idle_tick_iff (ms : ℕ) : (s.tick ms).Idle ↔ s.Idle := by
  rw [tick_eq]
  rfl

end Idle
end TCPSender

namespace TCPConnection
open TCPSender

/-- The sender after a segment's acknowledgment, before the window is filled. -/
def heardBy (s : TCPSender) (seg : TCPSegment) : TCPSender :=
  if seg.header.ack then s.noteAck seg.header.ackno seg.header.win else s

/-- The endpoint has nothing to send in the call. -/
def Quiet (c : TCPConnection) : Op → Prop
  | .segmentReceived seg => c.Takes seg → c.provokes seg = false ∧ (heardBy c.sender seg).Idle
  | .write data => (c.sender.writeStream data).Idle
  | .tick ms => c.sender.Unexpired ms ∧ c.sender.nConsecutiveRetransmissions ≤ maxRetxAttempts ∧
      (c.sentSYN = true → c.sender.Idle)
  | .endInputStream => c.sender.endStream.Idle
  | .connect => c.sender.Idle
  | .read _ => True
  | .pop _ => True

instance (c : TCPConnection) : ∀ op, Decidable (c.Quiet op)
  | .segmentReceived _ => inferInstanceAs (Decidable (_ → _))
  | .write data => inferInstanceAs (Decidable (c.sender.writeStream data).Idle)
  | .tick _ => inferInstanceAs (Decidable (_ ∧ _ ∧ (_ → _)))
  | .endInputStream => inferInstanceAs (Decidable c.sender.endStream.Idle)
  | .connect => inferInstanceAs (Decidable c.sender.Idle)
  | .read _ => .isTrue trivial
  | .pop _ => .isTrue trivial

/-- The sender's queue is empty between calls, and nothing is in flight before the first one that
sends. -/
structure Emptied (c : TCPConnection) : Prop where
  queue_eq : c.sender.segmentsOut = []
  unopened : c.sentSYN = false → c.sender.segmentsInFlight = []

section Send
variable (c : TCPConnection) (setRst : Bool)

theorem dressAll_eq_nil_iff (v : TCPReceiver) (segs : List TCPSegment) :
    dressAll v setRst segs = [] ↔ segs = [] := by
  cases segs <;> simp [dressAll]

theorem sendSegments_segmentsOut : (c.sendSegments setRst).segmentsOut =
    c.segmentsOut ++ dressAll c.receiver setRst c.sender.fillWindow.segmentsOut := by
  rw [sendSegments, cleanShutdown_eq]
  rfl

theorem sendSegments_silent_iff : (c.sendSegments setRst).segmentsOut = c.segmentsOut ↔
    c.sender.fillWindow.segmentsOut = [] := by
  rw [sendSegments_segmentsOut, List.append_right_eq_self, dressAll_eq_nil_iff]

theorem sendSegments_idle_iff (hqueue : c.sender.segmentsOut = []) :
    (c.sendSegments setRst).segmentsOut = c.segmentsOut ↔ c.sender.Idle := by
  rw [sendSegments_silent_iff, fillWindow_segmentsOut_eq_nil_iff, and_iff_right hqueue]

/-- What waits in the sender's queue goes out. -/
theorem sendSegments_grows (hqueue : c.sender.segmentsOut ≠ []) :
    c.segmentsOut.length < (c.sendSegments setRst).segmentsOut.length := by
  have hpushed : dressAll c.receiver setRst c.sender.fillWindow.segmentsOut ≠ [] := by
    rw [Ne, dressAll_eq_nil_iff, fillWindow_segmentsOut_eq_nil_iff]
    exact fun h => hqueue h.1
  rw [sendSegments_segmentsOut, List.length_append]
  exact Nat.lt_add_of_pos_right (List.length_pos_of_ne_nil hpushed)

theorem sendEmptySegment_queue : c.sendEmptySegment.sender.segmentsOut ≠ [] := by
  change c.sender.segmentsOut ++ [_] ≠ []
  simp

theorem emptied_sendSegments : (c.sendSegments setRst).Emptied := by
  constructor
  · rw [(c.sendSegments_eq setRst).1]
  · intro hsent
    rw [sendSegments, cleanShutdown_eq] at hsent
    cases hsent

/-- Giving up sends at least the reset. -/
theorem uncleanShutdown_grows : c.segmentsOut.length < c.uncleanShutdown.segmentsOut.length := by
  simp only [uncleanShutdown]
  split
  · exact c.killConnection.sendEmptySegment.sendSegments_grows true
      c.killConnection.sendEmptySegment_queue
  · next hqueue => exact c.killConnection.sendSegments_grows true hqueue

end Send

section Steps
variable {c : TCPConnection} {op : Op}

theorem Emptied.tick (h : c.Emptied) (ms : ℕ) (hsent : c.sentSYN = false) :
    (c.prelude (.tick ms)).Emptied := by
  have hnone := h.unopened hsent
  constructor
  · exact (tick_segmentsOut_eq_nil_iff ms).mpr ⟨h.queue_eq, Or.inl hnone⟩
  · intro _
    change (c.sender.tick ms).segmentsInFlight = []
    rw [tick_eq]
    exact hnone

theorem Emptied.step (h : c.Emptied) (op : Op) : (c.step op).Emptied := by
  cases op with
  | segmentReceived seg =>
    change (c.segmentReceived seg).Emptied
    cases hrst : seg.header.rst with
    | true =>
      rw [segmentReceived_of_rst hrst]
      exact ⟨h.queue_eq, h.unopened⟩
    | false =>
      by_cases htakes : c.Takes seg
      · rw [segmentReceived_of_takes htakes]
        exact emptied_sendSegments _ _
      · rw [segmentReceived_of_not_takes hrst htakes]
        exact ⟨h.queue_eq, h.unopened⟩
  | write data => exact emptied_sendSegments _ _
  | tick ms =>
    change (c.tick ms).Emptied
    by_cases hretx : maxRetxAttempts < (c.sender.tick ms).nConsecutiveRetransmissions
    · rw [tick_of_exhausted hretx]
      exact emptied_sendSegments _ _
    · rw [tick_of_not_exhausted hretx]
      split
      · exact emptied_sendSegments _ _
      · next hsent => exact h.tick ms (Bool.not_eq_true _ ▸ hsent)
  | endInputStream => exact emptied_sendSegments _ _
  | connect => exact emptied_sendSegments _ _
  | read len => exact ⟨h.queue_eq, h.unopened⟩
  | pop len => exact ⟨h.queue_eq, h.unopened⟩

theorem Emptied.segmentReceived_silent_iff (h : c.Emptied) {seg : TCPSegment}
    (htakes : c.Takes seg) : (c.segmentReceived seg).segmentsOut = c.segmentsOut ↔
      c.provokes seg = false ∧ (heardBy c.sender seg).Idle := by
  have hsame := takeIn_segmentsOut { c with timeSinceLastSegmentReceived := 0 } seg
  have hsender := takeIn_sender { c with timeSinceLastSegmentReceived := 0 } seg
  rw [segmentReceived_of_takes htakes]
  generalize takeIn _ seg = d at hsame hsender ⊢
  cases c.provokes seg with
  | true =>
    have hgrows := d.sendEmptySegment.sendSegments_grows false d.sendEmptySegment_queue
    refine iff_of_false (fun hsilent => ?_) (fun hquiet => Bool.noConfusion hquiet.1)
    rw [if_pos rfl] at hsilent
    rw [hsilent, ← hsame] at hgrows
    exact absurd hgrows (lt_irrefl _)
  | false =>
    rw [if_neg Bool.false_ne_true, ← hsame, sendSegments_silent_iff, hsender, heardBy,
      and_iff_right rfl]
    split
    · rw [ackReceived_segmentsOut_eq_nil_iff, and_iff_right h.queue_eq]
    · rw [fillWindow_segmentsOut_eq_nil_iff, and_iff_right h.queue_eq]

theorem Emptied.tick_silent_iff (h : c.Emptied) (ms : ℕ) :
    (c.tick ms).segmentsOut = c.segmentsOut ↔ c.Quiet (.tick ms) := by
  have hqueue := tick_segmentsOut_eq_nil_iff (s := c.sender) ms
  rw [and_iff_right h.queue_eq] at hqueue
  by_cases hretx : maxRetxAttempts < (c.sender.tick ms).nConsecutiveRetransmissions
  · rw [tick_of_exhausted hretx]
    have hgrows := (c.prelude (.tick ms)).uncleanShutdown_grows
    refine iff_of_false (fun hsilent => ?_) ?_
    · have hlen := congrArg List.length hsilent
      rw [sendSegments_segmentsOut, List.length_append] at hlen
      change c.segmentsOut.length < _ at hgrows
      omega
    · rintro ⟨hunexpired, hfew, -⟩
      rw [hunexpired.tick_retransmissions] at hretx
      exact absurd hretx (Nat.not_lt.mpr hfew)
  · rw [tick_of_not_exhausted hretx]
    have hfew : c.sender.Unexpired ms →
        c.sender.nConsecutiveRetransmissions ≤ maxRetxAttempts := fun hunexpired => by
      rw [hunexpired.tick_retransmissions] at hretx
      exact Nat.le_of_not_lt hretx
    cases hsent : c.sentSYN with
    | true =>
      rw [if_pos rfl]
      have hsilent := (c.prelude (.tick ms)).sendSegments_silent_iff false
      have hidle : (c.sender.tick ms).fillWindow.segmentsOut = [] ↔
          c.sender.Unexpired ms ∧ c.sender.Idle := by
        rw [fillWindow_segmentsOut_eq_nil_iff, hqueue, idle_tick_iff]
      refine (hsilent.trans hidle).trans ⟨?_, ?_⟩
      · rintro ⟨hunexpired, hidle⟩
        exact ⟨hunexpired, hfew hunexpired, fun _ => hidle⟩
      · rintro ⟨hunexpired, -, hidle⟩
        exact ⟨hunexpired, hidle hsent⟩
    | false =>
      have hunexpired : c.sender.Unexpired ms := Or.inl (h.unopened hsent)
      rw [if_neg Bool.false_ne_true]
      refine iff_of_true rfl ⟨hunexpired, hfew hunexpired, fun hset => ?_⟩
      rw [hsent] at hset
      cases hset

/-- A call pushes nothing just when the endpoint has nothing to send in it. -/
theorem Emptied.silent_iff (h : c.Emptied) (op : Op) :
    (c.step op).segmentsOut = c.segmentsOut ↔ c.Quiet op := by
  cases op with
  | segmentReceived seg =>
    change (c.segmentReceived seg).segmentsOut = _ ↔ (c.Takes seg → _)
    by_cases htakes : c.Takes seg
    · rw [h.segmentReceived_silent_iff htakes, imp_iff_right htakes]
    · refine iff_of_true ?_ fun htaken => absurd htaken htakes
      cases hrst : seg.header.rst with
      | true =>
        rw [segmentReceived_of_rst hrst]
        rfl
      | false => rw [segmentReceived_of_not_takes hrst htakes]
  | write data =>
    exact sendSegments_idle_iff { c with sender := c.sender.writeStream data } false h.queue_eq
  | tick ms => exact h.tick_silent_iff ms
  | endInputStream =>
    exact sendSegments_idle_iff { c with sender := c.sender.endStream } false h.queue_eq
  | connect => exact sendSegments_idle_iff c false h.queue_eq
  | read len => exact iff_of_true rfl trivial
  | pop len => exact iff_of_true rfl trivial

end Steps

section Runs
variable {cfg : TCPConfig} {random : WrappingInt32} {c₀ : TCPConnection}

theorem emptied_run (hnew : new cfg random = some c₀) (ops : List Op) :
    (machine.run c₀ ops).Emptied := by
  induction ops using List.reverseRecOn with
  | nil =>
    obtain ⟨receiver, sender, -, hsender, rfl⟩ := new_eq_some hnew
    obtain ⟨stream, -, rfl⟩ := TCPSender.new_eq_some hsender
    exact ⟨rfl, fun _ => rfl⟩
  | append_singleton ops op ih =>
    rw [machine.run_snoc]
    exact ih.step op

/-- A run is silent once the endpoint is dead if and only if the endpoint has nothing to send in
any call made from then on. -/
theorem silent_once_dead_iff (hnew : new cfg random = some c₀) (ops : List Op) :
    (∀ early late op later, ops = early ++ late ++ op :: later →
      (machine.run c₀ early).isActive = false →
      (machine.run c₀ (early ++ late ++ [op])).segmentsOut =
        (machine.run c₀ (early ++ late)).segmentsOut) ↔
    ∀ early late op later, ops = early ++ late ++ op :: later →
      (machine.run c₀ early).isActive = false → (machine.run c₀ (early ++ late)).Quiet op := by
  have hcall : ∀ past op, (machine.run c₀ (past ++ [op])).segmentsOut =
      (machine.run c₀ past).segmentsOut ↔ (machine.run c₀ past).Quiet op := by
    intro past op
    rw [machine.run_snoc]
    exact (emptied_run hnew past).silent_iff op
  constructor
  · intro h early late op later hsplit hdead
    exact (hcall _ op).mp (h early late op later hsplit hdead)
  · intro h early late op later hsplit hdead
    exact (hcall _ op).mpr (h early late op later hsplit hdead)

end Runs

section Reset
open Network

def reset : Op := .segmentReceived { header := { rst := true } }

/-- One of two bytes fills the window of the peer when it resets the connection. -/
def crowded : List Op :=
  [.connect, .segmentReceived { header := { acked 100 6 1 with syn := true } }, .write [7, 8],
    reset]

/-- What the owner still does then. -/
def lateCalls : List Op := [.write [9], .tick 10]

theorem silent_once_dead_crowded :
    (machine.run (smallNet .A) crowded).isActive = false ∧
      (machine.run (smallNet .A) crowded).sender.stream.contents = [8] ∧
      (machine.run (smallNet .A) (crowded ++ lateCalls)).segmentsOut =
        (machine.run (smallNet .A) crowded).segmentsOut := by
  have hdead : (machine.run (smallNet .A) crowded).isActive = false := by decide +kernel
  have hquiet : ∀ n < 6, ∀ m ≤ n,
      (machine.run (smallNet .A) ((crowded ++ lateCalls).take m)).isActive = false →
      ∀ op ∈ (crowded ++ lateCalls)[n]?,
        (machine.run (smallNet .A) ((crowded ++ lateCalls).take n)).Quiet op := by
    decide +kernel
  have hsilent := (silent_once_dead_iff (smallNet_new .A) (crowded ++ lateCalls)).mpr ?_
  · refine ⟨hdead, by decide +kernel, ?_⟩
    exact (hsilent crowded [.write [9]] (.tick 10) [] rfl hdead).trans
      (hsilent crowded [] (.write [9]) [.tick 10] rfl hdead)
  · intro early late op later hsplit
    have hlen : 6 = (early ++ late ++ op :: later).length := congrArg List.length hsplit
    rw [List.length_append, List.length_cons] at hlen
    have hcall := hquiet (early ++ late).length (by omega) early.length (by simp)
    rw [hsplit, List.take_left] at hcall
    simpa using hcall

/-- After a reset the bytes of the next write are still sent. -/
theorem dead_connection_sends :
    let past := [.connect, .segmentReceived { header := { acked 100 6 4 with syn := true } }, reset]
    (machine.run (smallNet .A) past).isActive = false ∧
      (machine.run (smallNet .A) (past ++ [.write [7]])).segmentsOut ≠
        (machine.run (smallNet .A) past).segmentsOut := by
  decide +kernel

end Reset

end TCPConnection
end Sponge
