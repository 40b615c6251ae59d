import Sponge.CleanShutdown
import Sponge.RetransmissionTimer

/-!
# Exponential back-off

The sender doubles its timeout with every retransmission, and only the connection keeps it from
doubling for ever: it gives up after `maxRetxAttempts`, long before the 32 bits of the timeout are
used up. The counter and the timeout are reset in different places, so that they agree only while
the timer runs.
-/
namespace Sponge
open MachineWords

namespace TCPSender

/-- The timer runs while something is in flight, and otherwise nothing has been retransmitted. -/
structure Armed (s : TCPSender) : Prop where
  running : s.segmentsInFlight ≠ [] → s.isTimerRunning = true
  unanswered : s.segmentsInFlight = [] → s.nConsecutiveRetransmissions = 0

/-- The counter is in its bounds and a running timer has been doubled as often as it says. -/
structure Doubled (s : TCPSender) : Prop where
  attempts_le : s.nConsecutiveRetransmissions ≤ maxRetxAttempts
  rto_eq : s.isTimerRunning = true →
    s.rto = s.initialRetransmissionTimeout * 2 ^ s.nConsecutiveRetransmissions

section Send
variable {s t : TCPSender} {seg : TCPSegment}

theorem Armed.withQueues (h : Armed s) (stream : ByteStream) (segmentsOut : List TCPSegment) :
    Armed { s with stream, segmentsOut } := ⟨h.running, h.unanswered⟩

theorem Doubled.withQueues (h : Doubled s) (stream : ByteStream) (segmentsOut : List TCPSegment) :
    Doubled { s with stream, segmentsOut } := ⟨h.attempts_le, h.rto_eq⟩

theorem TileStep.attempts_eq (h : TileStep s seg t) :
    t.nConsecutiveRetransmissions = s.nConsecutiveRetransmissions := by
  cases h with
  | syn hsyn => rw [sendSYN, sendSegment_eq]
  | data n hn hsyn hfin hpending => rw [fillStep_fst hfin, sendSegment_eq]

theorem TileStep.rto_eq (h : TileStep s seg t) :
    t.rto = if s.isTimerRunning then s.rto else s.initialRetransmissionTimeout := by
  cases h with
  | syn hsyn => rw [sendSYN, sendSegment_eq]
  | data n hn hsyn hfin hpending => rw [fillStep_fst hfin, sendSegment_eq]

theorem TileStep.in_flight (h : TileStep s seg t) : t.segmentsInFlight ≠ [] := by
  rw [h.sent.queue_eq, OrderedSegment.enqueue, ← List.length_pos_iff, List.orderedInsert_length]
  exact Nat.succ_pos _

theorem Armed.send (h : TileStep s seg t) : Armed t :=
  ⟨fun _ => h.sent.running_eq, fun hnone => absurd hnone h.in_flight⟩

/-- A segment sent on a timer that does not run starts it with nothing to double. -/
theorem Doubled.send (h : Doubled s) (harmed : Armed s) (hstep : TileStep s seg t) :
    Doubled t := by
  refine ⟨hstep.attempts_eq.trans_le h.attempts_le, fun _ => ?_⟩
  rw [hstep.rto_eq, hstep.attempts_eq, hstep.sent.timeout_eq]
  split
  · next hrunning => exact h.rto_eq hrunning
  · next hidle =>
    have hnone : s.segmentsInFlight = [] := by
      by_contra hsome
      exact hidle (harmed.running hsome)
    rw [harmed.unanswered hnone, Nat.pow_zero, Nat.mul_one]

theorem Armed.fillWindow (h : Armed s) : Armed s.fillWindow := by
  obtain ⟨tiles, hfills⟩ := s.fillWindow_fills
  exact hfills.induct (fun _ _ _ hstep _ => .send hstep) h

theorem Doubled.fillWindow (h : Doubled s) (harmed : Armed s) : Doubled s.fillWindow := by
  obtain ⟨tiles, hfills⟩ := s.fillWindow_fills
  refine (hfills.induct (I := fun s => Armed s ∧ Doubled s) ?_ ⟨harmed, h⟩).2
  rintro s seg t hstep ⟨harmed, hdoubled⟩
  exact ⟨.send hstep, hdoubled.send harmed hstep⟩

end Send

section Acknowledge
variable {s : TCPSender} (absAckno : ℕ) (ackno : WrappingInt32) (windowSize : UInt16)

theorem armed_acknowledge (s : TCPSender) : Armed (s.acknowledge absAckno) := by
  refine ⟨fun hsome => ((s.acknowledge_timer absAckno).1 hsome).1, fun _ => ?_⟩
  rw [acknowledge_eq]

theorem doubled_acknowledge (s : TCPSender) : Doubled (s.acknowledge absAckno) := by
  rw [acknowledge_eq]
  exact ⟨Nat.zero_le _, fun _ => (Nat.mul_one _).symm⟩

theorem Armed.ackReceived (h : Armed s) : Armed (s.ackReceived ackno windowSize) := by
  rcases s.ackReceived_cases ackno windowSize with ⟨heq, -⟩ | ⟨heq, -⟩
  · rw [heq]
    exact ⟨h.running, h.unanswered⟩
  · rw [heq]
    exact (armed_acknowledge _ _).fillWindow

theorem Doubled.ackReceived (h : Doubled s) : Doubled (s.ackReceived ackno windowSize) := by
  rcases s.ackReceived_cases ackno windowSize with ⟨heq, -⟩ | ⟨heq, -⟩
  · rw [heq]
    exact ⟨h.attempts_le, h.rto_eq⟩
  · rw [heq]
    exact (doubled_acknowledge _ _).fillWindow (armed_acknowledge _ _)

end Acknowledge

section Tick
variable {s : TCPSender} (ms : ℕ)

/-- A tick counts and doubles when the top of the queue is due and the window is open, and leaves
both quantities alone otherwise. -/
theorem tick_backoff (s : TCPSender) :
    (s.tick ms).nConsecutiveRetransmissions = s.nConsecutiveRetransmissions ∧
        (s.tick ms).rto = s.rto ∨
      s.segmentsInFlight ≠ [] ∧ 0 < s.rwnd ∧
        (s.tick ms).nConsecutiveRetransmissions = addMod 32 s.nConsecutiveRetransmissions 1 ∧
        (s.tick ms).rto = s.rto * 2 % 2 ^ 32 := by
  rw [tick, retransmit]
  cases hqueue : s.segmentsInFlight with
  | nil => simp
  | cons t ts =>
    dsimp only
    split
    · by_cases hopen : 0 < s.rwnd
      · simp [hopen]
      · simp [hopen]
    · simp

theorem tick_idle (hnone : s.segmentsInFlight = []) : (s.tick ms).isTimerRunning = false := by
  simp [tick, retransmit, hnone]

theorem Armed.tick (h : Armed s) : Armed (s.tick ms) := by
  have hqueue : (s.tick ms).segmentsInFlight = s.segmentsInFlight := by rw [tick_eq]
  refine ⟨?_, ?_⟩
  · rw [hqueue]
    intro hsome
    rw [(tick_timer hsome ms).1]
    exact h.running hsome
  · rw [hqueue]
    intro hnone
    rcases s.tick_backoff ms with ⟨hattempts, -⟩ | ⟨hsome, -⟩
    · exact hattempts.trans (h.unanswered hnone)
    · exact absurd hnone hsome

/-- Nine doublings of a 16-bit timeout fit into 25 bits. -/
theorem doubled_lt {timeout n : ℕ} (htimeout : timeout < 2 ^ 16) (hn : n ≤ 9) :
    timeout * 2 ^ n < 2 ^ 32 := by
  have hpow : 2 ^ n ≤ 2 ^ 9 := Nat.pow_le_pow_right (by decide) hn
  calc timeout * 2 ^ n ≤ timeout * 2 ^ 9 := Nat.mul_le_mul_left _ hpow
    _ < 2 ^ 32 := by omega

/-- The doubling is exact as long as it does not lead beyond the number of attempts. -/
theorem Doubled.tick (h : Doubled s) (harmed : Armed s)
    (htimeout : s.initialRetransmissionTimeout < 2 ^ 16)
    (hle : (s.tick ms).nConsecutiveRetransmissions ≤ maxRetxAttempts) : Doubled (s.tick ms) := by
  have hinitial : (s.tick ms).initialRetransmissionTimeout = s.initialRetransmissionTimeout := by
    rw [tick_eq]
  refine ⟨hle, fun hrunning => ?_⟩
  have hsome : s.segmentsInFlight ≠ [] := by
    intro hnone
    rw [tick_idle ms hnone] at hrunning
    cases hrunning
  have hrto := h.rto_eq (harmed.running hsome)
  have hattempts := h.attempts_le
  rw [maxRetxAttempts] at hattempts
  rw [hinitial]
  rcases s.tick_backoff ms with ⟨hsame, hsame'⟩ | ⟨-, -, hmore, hdouble⟩
  · rw [hsame, hsame', hrto]
  · have hcount : addMod 32 s.nConsecutiveRetransmissions 1 =
        s.nConsecutiveRetransmissions + 1 := addMod_of_lt (by omega)
    rw [hmore, hdouble, hrto, hcount, Nat.mul_assoc, ← Nat.pow_succ,
      Nat.mod_eq_of_lt (doubled_lt htimeout (by omega))]

end Tick

theorem Armed.step {s : TCPSender} (h : Armed s) (op : Op) : Armed (s.step op) := by
  cases op with
  | write data => exact ⟨h.running, h.unanswered⟩
  | endInput => exact ⟨h.running, h.unanswered⟩
  | fillWindow => exact h.fillWindow
  | ackReceived ackno windowSize => exact h.ackReceived ackno windowSize
  | tick ms => exact h.tick ms
  | sendEmptySegment => exact ⟨h.running, h.unanswered⟩

theorem timeout_step (s : TCPSender) (op : Op) :
    (s.step op).initialRetransmissionTimeout = s.initialRetransmissionTimeout := by
  have hfill (t : TCPSender) :
      t.fillWindow.initialRetransmissionTimeout = t.initialRetransmissionTimeout := by
    obtain ⟨tiles, hfills⟩ := t.fillWindow_fills
    exact hfills.frame.timeout_eq
  cases op with
  | write data => rfl
  | endInput => rfl
  | fillWindow => exact hfill s
  | ackReceived ackno windowSize =>
    rcases s.ackReceived_cases ackno windowSize with ⟨heq, -⟩ | ⟨heq, -⟩
    · rw [TCPSender.step, heq]
    · rw [TCPSender.step, heq, hfill, acknowledge_eq]
  | tick ms => rw [TCPSender.step, tick_eq]
  | sendEmptySegment => rfl

end TCPSender

namespace TCPConnection
open TCPSender

section Dead
variable {c : TCPConnection} {op : Op}

theorem Move.dead {d : TCPConnection} (hmove : Move c d) (h : c.isActive = false) :
    d.isActive = false := by
  cases hmove with
  | send setRst => exact (c.sendSegments_isActive_iff setRst).mpr (Or.inl h)
  | kill => rfl
  | empty => exact h

theorem uncleanShutdown_dead (c : TCPConnection) : c.uncleanShutdown.isActive = false := by
  simp only [uncleanShutdown]
  split
  · exact Move.dead (.send true) rfl
  · exact Move.dead (.send true) rfl

end Dead

/-- What is known of the back-off in every state. -/
structure BacksOff (c : TCPConnection) : Prop where
  armed : c.sender.Armed
  doubled : c.isActive = true → c.sender.Doubled

section Steps
variable {c d : TCPConnection} {op : Op}

theorem armed_step (h : c.sender.Armed) : (c.step op).sender.Armed :=
  step_sender (fun _ op hs => hs.step op) (fun _ hs => hs.withQueues _ _)
    (fun _ hs => hs.withQueues _ _) h

theorem BacksOff.withQueues (h : c.BacksOff) (stream : ByteStream) (segmentsOut : List TCPSegment) :
    BacksOff { c with sender := { c.sender with stream, segmentsOut } } :=
  ⟨h.armed.withQueues _ _, fun hactive => (h.doubled hactive).withQueues _ _⟩

theorem BacksOff.move (h : c.BacksOff) (hmove : Move c d) : d.BacksOff := by
  cases hmove with
  | send setRst =>
    have hsender := (c.sendSegments_eq setRst).1
    refine ⟨?_, fun hactive => ?_⟩
    · rw [hsender]
      exact h.armed.fillWindow.withQueues _ _
    · have hbefore : c.isActive = true := by
        by_contra hdead
        rw [Move.dead (.send setRst) (Bool.not_eq_true _ ▸ hdead)] at hactive
        cases hactive
      rw [hsender]
      exact ((h.doubled hbefore).fillWindow h.armed).withQueues _ _
  | kill => exact ⟨h.armed.withQueues _ _, (nomatch ·)⟩
  | empty => exact h.withQueues _ _

theorem BacksOff.takeIn (h : c.BacksOff) (seg : TCPSegment) : (c.takeIn seg).BacksOff := by
  have hsender := takeIn_sender c seg
  refine ⟨?_, fun hactive => ?_⟩
  · rw [hsender]
    split
    · exact h.armed.ackReceived _ _
    · exact h.armed
  · have hdoubled := h.doubled ((takeIn_isActive c seg).symm.trans hactive)
    rw [hsender]
    split
    · exact hdoubled.ackReceived _ _
    · exact hdoubled

/-- The tick that goes beyond the number of attempts ends the connection. -/
theorem BacksOff.tick (h : c.BacksOff) (htimeout : c.sender.initialRetransmissionTimeout < 2 ^ 16)
    (ms : ℕ) : (c.tick ms).BacksOff := by
  by_cases hretx : maxRetxAttempts < (c.sender.tick ms).nConsecutiveRetransmissions
  · have harmed : (c.step (.tick ms)).sender.Armed := armed_step h.armed
    refine ⟨harmed, fun hactive => ?_⟩
    rw [tick_of_exhausted hretx, Move.dead (.send false) (uncleanShutdown_dead _)] at hactive
    cases hactive
  · have hticked : (c.prelude (.tick ms)).BacksOff :=
      ⟨h.armed.tick ms, fun hactive => (h.doubled hactive).tick ms h.armed htimeout
        (Nat.le_of_not_lt hretx)⟩
    rw [tick_of_not_exhausted hretx]
    split
    · exact hticked.move (.send false)
    · exact hticked

theorem BacksOff.step (h : c.BacksOff) (htimeout : c.sender.initialRetransmissionTimeout < 2 ^ 16) :
    (c.step op).BacksOff := by
  cases op with
  | tick ms => exact h.tick htimeout ms
  | segmentReceived seg =>
    refine step_induct (fun _ _ hmove hd => hd.move hmove) ?_
    have hzero : BacksOff { c with timeSinceLastSegmentReceived := 0 } := ⟨h.armed, h.doubled⟩
    rcases c.prelude_segmentReceived seg with ⟨-, heq⟩ | ⟨-, heq⟩
    · rw [heq]
      exact hzero
    · rw [heq]
      exact hzero.takeIn seg
  | write data =>
    exact step_induct (fun _ _ hmove hd => hd.move hmove) (h.withQueues _ _)
  | endInputStream =>
    exact step_induct (fun _ _ hmove hd => hd.move hmove) (h.withQueues _ _)
  | connect => exact h.move (.send false)
  | read len => exact ⟨h.armed, h.doubled⟩
  | pop len => exact ⟨h.armed, h.doubled⟩

/-- Once something is in flight, the actions of a call leave the back-off alone. -/
theorem Move.backoff_eq (hmove : Move c d) (hsome : c.sender.segmentsInFlight ≠ [])
    (hrunning : c.sender.isTimerRunning = true) : d.sender.segmentsInFlight ≠ [] ∧
      d.sender.isTimerRunning = true ∧
      d.sender.nConsecutiveRetransmissions = c.sender.nConsecutiveRetransmissions ∧
      d.sender.rto = c.sender.rto := by
  cases hmove with
  | send setRst =>
    obtain ⟨tiles, hfills⟩ := c.sender.fillWindow_fills
    rw [(c.sendSegments_eq setRst).1]
    refine hfills.induct (I := fun s => s.segmentsInFlight ≠ [] ∧ s.isTimerRunning = true ∧
      s.nConsecutiveRetransmissions = c.sender.nConsecutiveRetransmissions ∧
      s.rto = c.sender.rto) ?_ ⟨hsome, hrunning, rfl, rfl⟩
    rintro s seg t hstep ⟨-, hrun, hattempts, hrto⟩
    refine ⟨hstep.in_flight, hstep.sent.running_eq, hstep.attempts_eq.trans hattempts, ?_⟩
    rw [hstep.rto_eq, if_pos hrun, hrto]
  | kill => exact ⟨hsome, hrunning, rfl, rfl⟩
  | empty => exact ⟨hsome, hrunning, rfl, rfl⟩

/-- A tick with a closed window changes neither the counter nor the timeout. -/
theorem tick_of_zero_window (h : c.sender.Armed) (hsome : c.sender.segmentsInFlight ≠ [])
    (hclosed : c.sender.rwnd = 0) (ms : ℕ) :
    (c.tick ms).sender.nConsecutiveRetransmissions = c.sender.nConsecutiveRetransmissions ∧
      (c.tick ms).sender.rto = c.sender.rto := by
  have hqueue : (c.sender.tick ms).segmentsInFlight = c.sender.segmentsInFlight := by rw [tick_eq]
  have hsame : (c.sender.tick ms).nConsecutiveRetransmissions =
      c.sender.nConsecutiveRetransmissions ∧ (c.sender.tick ms).rto = c.sender.rto := by
    rcases c.sender.tick_backoff ms with hsame | ⟨-, hopen, -⟩
    · exact hsame
    · omega
  have hmoves : (c.step (.tick ms)).sender.segmentsInFlight ≠ [] ∧
      (c.step (.tick ms)).sender.isTimerRunning = true ∧
      (c.step (.tick ms)).sender.nConsecutiveRetransmissions =
        c.sender.nConsecutiveRetransmissions ∧
      (c.step (.tick ms)).sender.rto = c.sender.rto := by
    refine step_induct (I := fun d => d.sender.segmentsInFlight ≠ [] ∧
      d.sender.isTimerRunning = true ∧
      d.sender.nConsecutiveRetransmissions = c.sender.nConsecutiveRetransmissions ∧
      d.sender.rto = c.sender.rto) ?_ ⟨hqueue ▸ hsome, (h.tick ms).running (hqueue ▸ hsome), hsame⟩
    rintro d e hmove ⟨hd, hrun, hattempts, hrto⟩
    obtain ⟨he, hrun', hattempts', hrto'⟩ := hmove.backoff_eq hd hrun
    exact ⟨he, hrun', hattempts'.trans hattempts, hrto'.trans hrto⟩
  exact hmoves.2.2

end Steps

section Runs
variable {cfg : TCPConfig} {random : WrappingInt32} {c₀ : TCPConnection}

theorem backsOff_run (hnew : new cfg random = some c₀) (ops : List Op) :
    (machine.run c₀ ops).sender.initialRetransmissionTimeout = cfg.rtTimeout.toNat ∧
      (machine.run c₀ ops).BacksOff := by
  induction ops using List.reverseRecOn with
  | nil =>
    obtain ⟨receiver, sender, -, hsender, rfl⟩ := new_eq_some hnew
    obtain ⟨stream, -, rfl⟩ := TCPSender.new_eq_some hsender
    exact ⟨rfl, ⟨fun hsome => absurd rfl hsome, fun _ => rfl⟩,
      fun _ => ⟨Nat.zero_le _, (nomatch ·)⟩⟩
  | append_singleton ops op ih =>
    obtain ⟨htimeout, hbacks⟩ := ih
    rw [machine.run_snoc]
    constructor
    · exact step_sender (I := fun s => s.initialRetransmissionTimeout = cfg.rtTimeout.toNat)
        (fun s op hs => (s.timeout_step op).trans hs) (fun _ hs => hs) (fun _ hs => hs) htimeout
    · exact hbacks.step (htimeout.trans_lt cfg.rtTimeout.toNat_lt)

/-- While the connection is active, at most `maxRetxAttempts` retransmissions are counted, and with
something in flight the timeout is the configured one doubled that often; it does not wrap, and
neither does its next doubling. A timeout with the window closed changes neither. -/
theorem backoff_exact (hnew : new cfg random = some c₀) (ops : List Op) :
    let c := machine.run c₀ ops
    (c.isActive = true → c.sender.nConsecutiveRetransmissions ≤ maxRetxAttempts ∧
      (c.sender.segmentsInFlight ≠ [] →
        c.sender.rto = cfg.rtTimeout.toNat * 2 ^ c.sender.nConsecutiveRetransmissions ∧
          c.sender.rto * 2 < 2 ^ 32)) ∧
    ∀ ms, c.sender.rwnd = 0 → c.sender.emitted (.tick ms) ≠ [] →
      (c.tick ms).sender.nConsecutiveRetransmissions = c.sender.nConsecutiveRetransmissions ∧
        (c.tick ms).sender.rto = c.sender.rto := by
  intro c
  obtain ⟨htimeout, hbacks⟩ := backsOff_run hnew ops
  constructor
  · intro hactive
    have hdoubled := hbacks.doubled hactive
    have hattempts := hdoubled.attempts_le
    refine ⟨hattempts, fun hsome => ?_⟩
    have hrto := hdoubled.rto_eq (hbacks.armed.running hsome)
    rw [htimeout] at hrto
    refine ⟨hrto, ?_⟩
    rw [hrto, Nat.mul_assoc, ← Nat.pow_succ]
    exact doubled_lt cfg.rtTimeout.toNat_lt (Nat.succ_le_succ hattempts)
  · intro ms hclosed htimesOut
    exact tick_of_zero_window hbacks.armed ((c.sender.emitted_tick_iff ms).mp htimesOut).1 hclosed ms

open Network in
/-- The SYN is sent again after one second and after two more. -/
theorem backoff_exact_syn :
    let c := machine.run (smallNet .A) [.connect, .tick 1000, .tick 2000]
    c.isActive = true ∧ c.sender.segmentsInFlight ≠ [] ∧
      c.sender.rto = 1000 * 2 ^ c.sender.nConsecutiveRetransmissions := by
  have hactive : (machine.run (smallNet .A) [.connect, .tick 1000, .tick 2000]).isActive = true := by
    decide +kernel
  have hsome : (machine.run (smallNet .A)
      [.connect, .tick 1000, .tick 2000]).sender.segmentsInFlight ≠ [] := by
    decide +kernel
  exact ⟨hactive, hsome, (((backoff_exact (smallNet_new .A) _).1 hactive).2 hsome).1⟩

end Runs
end TCPConnection
end Sponge
