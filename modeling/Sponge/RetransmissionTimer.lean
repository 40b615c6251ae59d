import Sponge.SenderInvariant

/-!
# The retransmission timer

`elapsed` counts the milliseconds ticked since the timer should have started:
when a segment was sent with nothing outstanding, when an acknowledgment moved
the checkpoint, or at the last retransmission. The code agrees with it as long as
no segment is sent on a stale timer: one that still runs, with time on it, after
everything was acknowledged.
-/
namespace Sponge
open MachineWords
namespace TCPSender

def elapsed (e : ℕ) (s : TCPSender) : Op → ℕ
  | .tick ms => if s.emitted (.tick ms) = [] then e + ms else 0
  | .fillWindow => if s.segmentsInFlight = [] ∧ s.newTiles .fillWindow ≠ [] then 0 else e
  | .ackReceived ackno windowSize =>
    if (s.ackReceived ackno windowSize).checkpoint = s.checkpoint then e else 0
  | _ => e

/-- Time is left on the timer and there is something to send. -/
def StalePending (s : TCPSender) : Prop :=
  s.isTimerRunning = true ∧ s.timeSpent ≠ 0 ∧ s.fin = false ∧ s.hasPending = true

instance (s : TCPSender) : Decidable s.StalePending :=
  inferInstanceAs (Decidable (_ ∧ _))

/-- The operation does not send on a stale timer, and a tick does not wrap the timer of a segment in
flight. -/
def TimerFresh (s : TCPSender) : Op → Prop
  | .fillWindow => s.segmentsInFlight = [] → ¬ s.StalePending
  | .ackReceived ackno _ =>
    s.checkpoint < s.nextSeqno → unwrap ackno s.isn s.checkpoint = s.nextSeqno → ¬ s.StalePending
  | .tick ms => s.segmentsInFlight ≠ [] → s.timeSpent + ms < 2 ^ 64
  | _ => True

instance (s : TCPSender) : ∀ op, Decidable (s.TimerFresh op)
  | .fillWindow => inferInstanceAs (Decidable (_ → _))
  | .ackReceived _ _ => inferInstanceAs (Decidable (_ → _ → _))
  | .tick _ => inferInstanceAs (Decidable (_ → _))
  | .write _ => .isTrue trivial
  | .endInput => .isTrue trivial
  | .sendEmptySegment => .isTrue trivial

/-- While something is outstanding the timer runs and holds the elapsed time. -/
structure Timed (e : ℕ) (s : TCPSender) : Prop where
  outstanding : s.segmentsInFlight ≠ [] → s.isTimerRunning = true ∧ s.timeSpent = e
  unopened : s.syn = false → s.isTimerRunning = false

section Fill
variable {s t : TCPSender} {e : ℕ} {tiles : List OrderedSegment}

theorem Fills.timer (h : Fills s tiles t) (hne : tiles ≠ []) :
    t.syn = true ∧ t.isTimerRunning = true ∧
      t.timeSpent = if s.isTimerRunning then s.timeSpent else 0 := by
  induction h with
  | refl s => exact absurd rfl hne
  | @cons s t u seg tiles hstep hrest ih =>
    have hsent := hstep.sent
    cases hrest with
    | refl => exact ⟨hsent.syn_eq, hsent.running_eq, hsent.timeSpent_eq⟩
    | cons hstep' hrest' =>
      obtain ⟨hsyn, hrun, htime⟩ := ih (List.cons_ne_nil _ _)
      refine ⟨hsyn, hrun, ?_⟩
      rw [htime, hsent.running_eq, if_pos rfl]
      exact hsent.timeSpent_eq

/-- What must hold before a first tile can be sent. -/
theorem Fills.ready (h : Fills s tiles t) (hne : tiles ≠ []) :
    s.syn = false ∨ s.fin = false ∧ s.hasPending = true := by
  cases h with
  | refl => exact absurd rfl hne
  | cons hstep _ =>
    cases hstep with
    | syn hsyn => exact Or.inl hsyn
    | data n hn hsyn hfin hpending => exact Or.inr ⟨hfin, hpending⟩

theorem Timed.fillWindow (h : Timed e s) (hfresh : s.TimerFresh .fillWindow) :
    Timed (elapsed e s .fillWindow) s.fillWindow := by
  obtain ⟨tiles, hfills⟩ := s.fillWindow_fills
  have hnew : s.newTiles .fillWindow = tiles.map OrderedSegment.seg := by
    change s.fillWindow.segmentsOut.drop s.segmentsOut.length = _
    rw [hfills.segmentsOut_eq, List.drop_left]
  rcases List.eq_nil_or_concat' tiles with rfl | ⟨init, last, hsnoc⟩
  · have hsame : s.fillWindow = s := by
      generalize s.fillWindow = t at hfills
      cases hfills
      rfl
    have hkept : elapsed e s .fillWindow = e := if_neg (by simp [hnew])
    rw [hsame, hkept]
    exact h
  · have hne : tiles ≠ [] := by simp [hsnoc]
    obtain ⟨hsyn, hrun, htime⟩ := hfills.timer hne
    refine ⟨?_, ?_⟩
    · intro _
      refine ⟨hrun, ?_⟩
      rw [htime]
      by_cases hq : s.segmentsInFlight = []
      · have hzero : elapsed e s .fillWindow = 0 := if_pos ⟨hq, by simp [hnew, hne]⟩
        rw [hzero]
        split
        · next hold =>
          by_contra hstale
          apply hfresh hq
          rcases hfills.ready hne with hclosed | ⟨hfin, hpending⟩
          · rw [h.unopened hclosed] at hold
            cases hold
          · exact ⟨hold, hstale, hfin, hpending⟩
        · rfl
      · have hkept : elapsed e s .fillWindow = e := if_neg (fun hboth => hq hboth.1)
        obtain ⟨hold, hspent⟩ := h.outstanding hq
        rw [hkept, if_pos hold, hspent]
    · intro hclosed
      rw [hsyn] at hclosed
      cases hclosed

end Fill

section Acknowledge
variable {s : TCPSender} {e absAckno : ℕ}

theorem acknowledge_timer (s : TCPSender) (absAckno : ℕ) :
    ((s.acknowledge absAckno).segmentsInFlight ≠ [] →
      (s.acknowledge absAckno).isTimerRunning = true ∧ (s.acknowledge absAckno).timeSpent = 0) ∧
    ((s.acknowledge absAckno).segmentsInFlight = [] →
      (s.acknowledge absAckno).isTimerRunning = s.isTimerRunning ∧
      (s.acknowledge absAckno).timeSpent = s.timeSpent) := by
  simp only [acknowledge]
  split
  · next hempty => exact ⟨fun h => absurd hempty h, fun _ => ⟨rfl, rfl⟩⟩
  · next hsome => exact ⟨fun _ => ⟨rfl, rfl⟩, fun h => absurd h hsome⟩

/-- An acknowledgment that is taken up starts the timer afresh, except for what it leaves on
the timer when everything is acknowledged. -/
theorem Timed.ackReceived (h : Timed e s) (hsound : Sound s) {ackno : WrappingInt32}
    {windowSize : UInt16} (hfresh : s.TimerFresh (.ackReceived ackno windowSize)) :
    Timed (elapsed e s (.ackReceived ackno windowSize)) (s.ackReceived ackno windowSize) := by
  rw [elapsed]
  rcases s.ackReceived_cases ackno windowSize with ⟨heq, -⟩ | ⟨heq, hlo, hhi⟩
  · rw [heq, if_pos rfl]
    exact ⟨h.outstanding, h.unopened⟩
  · generalize hs : ({ s with rwnd := windowSize.toNat } : TCPSender) = w at heq
    have hwSound : Sound w := hs ▸ hsound.rwnd_congr windowSize
    have hack : Sound (w.acknowledge (unwrap ackno s.isn s.checkpoint)) := by
      subst hs
      exact hwSound.acknowledge hlo hhi
    obtain ⟨hrestart, hkept⟩ := w.acknowledge_timer (unwrap ackno s.isn s.checkpoint)
    have hfields := w.acknowledge_eq (unwrap ackno s.isn s.checkpoint)
    generalize w.acknowledge (unwrap ackno s.isn s.checkpoint) = a at heq hack hrestart hkept hfields
    have hcp : a.checkpoint = unwrap ackno s.isn s.checkpoint := by rw [hfields]
    have hsyn : a.syn = s.syn := by rw [hfields, ← hs]
    have hnext : a.nextSeqno = s.nextSeqno := by rw [hfields, ← hs]
    have hmoved : (s.ackReceived ackno windowSize).checkpoint ≠ s.checkpoint := by
      obtain ⟨tiles, hfills⟩ := a.fillWindow_fills
      rw [heq, hfills.frame.checkpoint_eq, hcp]
      omega
    have htimed : Timed 0 a := by
      refine ⟨hrestart, ?_⟩
      intro hclosed
      have hzero := hsound.unsent (hsyn ▸ hclosed)
      omega
    have hready : a.TimerFresh .fillWindow := by
      intro hempty hstale
      obtain ⟨start, hout⟩ := hack.outstanding
      have hall := hout.eq_nil_iff.mp hempty
      rw [hcp, hnext] at hall
      obtain ⟨hrun, htime⟩ := hkept hempty
      apply hfresh (by omega) hall
      rw [StalePending, hrun, htime, hfields, ← hs] at hstale
      exact hstale
    have hfilled := htimed.fillWindow hready
    have hzero : elapsed 0 a .fillWindow = 0 := ite_self 0
    rw [hzero] at hfilled
    rw [if_neg hmoved, heq]
    exact hfilled

end Acknowledge

section Tick
variable {s : TCPSender} {e ms : ℕ}

theorem emitted_tick_iff (s : TCPSender) (ms : ℕ) :
    s.emitted (.tick ms) ≠ [] ↔
      s.segmentsInFlight ≠ [] ∧ s.rto ≤ addMod 64 s.timeSpent ms := by
  have hpushed := s.tick_segmentsOut ms
  have hemitted : s.emitted (.tick ms) =
      (s.tick ms).segmentsOut.drop s.segmentsOut.length := rfl
  rw [hemitted, hpushed, List.drop_left]
  cases hq : s.segmentsInFlight with
  | nil => simp
  | cons t ts => simp

/-- The timer after a tick with something outstanding. -/
theorem tick_timer (hq : s.segmentsInFlight ≠ []) (ms : ℕ) :
    (s.tick ms).isTimerRunning = s.isTimerRunning ∧
      (s.tick ms).timeSpent =
        if s.rto ≤ addMod 64 s.timeSpent ms then 0 else addMod 64 s.timeSpent ms := by
  rw [tick, retransmit]
  cases hqueue : s.segmentsInFlight with
  | nil => exact absurd hqueue hq
  | cons t ts =>
    dsimp only
    by_cases hexpired : s.rto ≤ addMod 64 s.timeSpent ms
    · simp only [if_pos hexpired]
      split <;> simp
    · simp [if_neg hexpired]

theorem Timed.tick (h : Timed e s) (hfresh : s.TimerFresh (.tick ms)) :
    Timed (elapsed e s (.tick ms)) (s.tick ms) := by
  have hqueue : (s.tick ms).segmentsInFlight = s.segmentsInFlight := by rw [tick_eq]
  have hsyn : (s.tick ms).syn = s.syn := by rw [tick_eq]
  refine ⟨?_, ?_⟩
  · rw [hqueue]
    intro hq
    have hsum : addMod 64 s.timeSpent ms = s.timeSpent + ms := addMod_of_lt (hfresh hq)
    obtain ⟨hrun, hspent⟩ := h.outstanding hq
    obtain ⟨hrun', htime⟩ := tick_timer hq ms
    refine ⟨hrun'.trans hrun, ?_⟩
    rw [htime, hsum, elapsed]
    by_cases hexpired : s.rto ≤ s.timeSpent + ms
    · have hsends : s.emitted (.tick ms) ≠ [] :=
        (s.emitted_tick_iff ms).mpr ⟨hq, hsum ▸ hexpired⟩
      rw [if_pos hexpired, if_neg hsends]
    · have hquiet : s.emitted (.tick ms) = [] := by
        by_contra hsends
        have hdue := ((s.emitted_tick_iff ms).mp hsends).2
        rw [hsum] at hdue
        exact hexpired hdue
      rw [if_neg hexpired, if_pos hquiet, hspent]
  · rw [hsyn]
    intro hclosed
    have hidle := h.unopened hclosed
    by_cases hq : s.segmentsInFlight = []
    · rw [TCPSender.tick, retransmit]
      simp [hq]
    · rw [(tick_timer hq ms).1]
      exact hidle

end Tick

theorem Timed.step {s : TCPSender} {e : ℕ} (h : Timed e s) (hsound : Sound s) {op : Op}
    (hfresh : s.TimerFresh op) : Timed (elapsed e s op) (s.step op) := by
  cases op with
  | write data => exact ⟨h.outstanding, h.unopened⟩
  | endInput => exact ⟨h.outstanding, h.unopened⟩
  | fillWindow => exact h.fillWindow hfresh
  | ackReceived ackno windowSize => exact h.ackReceived hsound hfresh
  | tick ms => exact h.tick hfresh
  | sendEmptySegment => exact ⟨h.outstanding, h.unopened⟩

theorem timed_new {capacity : ℕ} {retxTimeout : UInt16} {fixedIsn : Option WrappingInt32}
    {random : WrappingInt32} {s : TCPSender}
    (h : new capacity retxTimeout fixedIsn random = some s) : Timed 0 s := by
  obtain ⟨stream, -, rfl⟩ := new_eq_some h
  exact ⟨fun hq => absurd rfl hq, fun _ => rfl⟩

theorem timed_run {s₀ : TCPSender} (hsound : Sound s₀) (htimed : Timed 0 s₀) {ops : List Op}
    (hops : (machine.restrict TimerFresh).Admits s₀ ops) :
    Timed (machine.track elapsed 0 s₀ ops) (machine.run s₀ ops) := by
  refine (machine.restrict TimerFresh).run_induction
    (P := fun ops => Timed (machine.track elapsed 0 s₀ ops) (machine.run s₀ ops)) htimed ?_ hops
  intro past op _ hop hpast
  rw [Machine.track_snoc, Machine.run_snoc]
  exact hpast.step (hsound.run past) hop.2

/-- After a send with nothing outstanding, no more time has elapsed than was ticked. -/
theorem elapsed_le_ticks (s₀ : TCPSender) (past : List Op) (ticks : List ℕ)
    (hq : (machine.run s₀ past).segmentsInFlight = [])
    (hsend : (machine.run s₀ past).newTiles .fillWindow ≠ []) :
    machine.track elapsed 0 s₀ (past ++ .fillWindow :: ticks.map Op.tick) ≤ ticks.sum := by
  induction ticks using List.reverseRecOn with
  | nil =>
    have hzero : elapsed (machine.track elapsed 0 s₀ past) (machine.run s₀ past) .fillWindow = 0 :=
      if_pos ⟨hq, hsend⟩
    rw [List.map_nil, Machine.track_snoc, hzero]
    exact Nat.zero_le _
  | append_singleton ticks ms ih =>
    rw [List.map_append, ← List.cons_append, ← List.append_assoc, List.map_singleton,
      Machine.track_snoc, elapsed, List.sum_append, List.sum_singleton]
    split <;> omega

/-- A tick retransmits exactly when something is outstanding and the time since the timer's
start has reached the timeout, in every run that never sends on a stale timer. -/
theorem retransmits_exactly_on_expiry {capacity : ℕ} {retxTimeout : UInt16}
    {fixedIsn : Option WrappingInt32} {random : WrappingInt32} {s₀ : TCPSender}
    (hnew : new capacity retxTimeout fixedIsn random = some s₀) {ops : List Op} {ms : ℕ}
    (hops : (machine.restrict TimerFresh).Admits s₀ (ops ++ [.tick ms])) :
    let s := machine.run s₀ ops
    (s.emitted (.tick ms) ≠ [] ↔
      s.segmentsInFlight ≠ [] ∧ s.rto ≤ machine.track elapsed 0 s₀ ops + ms) ∧
    ∀ (past : List Op) (ticks : List ℕ), ops = past ++ .fillWindow :: ticks.map Op.tick →
      (machine.run s₀ past).segmentsInFlight = [] →
      (machine.run s₀ past).newTiles .fillWindow ≠ [] →
      ticks.sum + ms < s.rto → s.emitted (.tick ms) = [] := by
  obtain ⟨hpast, hlast⟩ := (Machine.admits_snoc _ _ _ _).mp hops
  rw [Machine.restrict_run] at hlast
  have htimed := timed_run (sound_new hnew) (timed_new hnew) hpast
  have hiff : (machine.run s₀ ops).emitted (.tick ms) ≠ [] ↔
      (machine.run s₀ ops).segmentsInFlight ≠ [] ∧
        (machine.run s₀ ops).rto ≤ machine.track elapsed 0 s₀ ops + ms := by
    rw [emitted_tick_iff]
    refine and_congr_right fun hq => ?_
    rw [addMod_of_lt (hlast.2 hq), (htimed.outstanding hq).2]
  refine ⟨hiff, ?_⟩
  intro past ticks hsplit hq hsend hearly
  by_contra hsends
  have hdue := (hiff.mp hsends).2
  have hle := elapsed_le_ticks s₀ past ticks hq hsend
  rw [← hsplit] at hle
  omega

theorem retransmits_exactly_on_expiry_syn :
    ∃ s₀, new 8 1000 (some ⟨5⟩) ⟨0⟩ = some s₀ ∧
      (machine.restrict TimerFresh).Admits s₀ ([.fillWindow, .tick 400] ++ [.tick 600]) ∧
      let s := machine.run s₀ [.fillWindow, .tick 400]
      (s.emitted (.tick 600) ≠ [] ↔
        s.segmentsInFlight ≠ [] ∧
          s.rto ≤ machine.track elapsed 0 s₀ [.fillWindow, .tick 400] + 600) :=
  ⟨_, rfl, by decide, (retransmits_exactly_on_expiry
    (show new 8 1000 (some ⟨5⟩) ⟨0⟩ = some _ from rfl)
    (show (machine.restrict TimerFresh).Admits _ ([.fillWindow, .tick 400] ++ [.tick 600])
      by decide)).1⟩

/-- The time the SYN waited for its acknowledgment is charged to the next segment. -/
theorem retransmits_early_on_stale_timer :
    ∃ s₀, new 8 1000 (some ⟨5⟩) ⟨0⟩ = some s₀ ∧
      let ops := [.fillWindow, .tick 500, .ackReceived ⟨6⟩ 9, .write [1], .fillWindow]
      let s := machine.run s₀ ops
      s.emitted (.tick 500) ≠ [] ∧ s.rto = 1000 ∧ machine.track elapsed 0 s₀ ops = 0 ∧
        ¬ (s.emitted (.tick 500) ≠ [] ↔
          s.segmentsInFlight ≠ [] ∧ s.rto ≤ machine.track elapsed 0 s₀ ops + 500) :=
  ⟨_, rfl, by decide⟩

end TCPSender
end Sponge
