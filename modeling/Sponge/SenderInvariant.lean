import Sponge.Runs
import Sponge.SenderTiling

/-!
# The segments in flight

They tile the sequence space up to the next sequence number and the checkpoint
lies in the first of them, whatever the operations and the acknowledgments.
-/
namespace Sponge
open MachineWords
namespace TCPSender

structure Outstanding (start : ℕ) (s : TCPSender) : Prop where
  tiles : Tiles OrderedSegment.absSeqno OrderedSegment.length start s.segmentsInFlight s.nextSeqno
  start_le : start ≤ s.checkpoint
  checkpoint_le : s.checkpoint ≤ s.nextSeqno
  front : ∀ t ts, s.segmentsInFlight = t :: ts → s.checkpoint < t.absSeqno + t.length
  bytes_eq : s.bytesInFlight = (s.segmentsInFlight.map OrderedSegment.length).sum

/-- The stream is well formed and the queue covers what is outstanding. -/
structure Sound (s : TCPSender) : Prop where
  stream_wf : s.stream.Wf
  outstanding : ∃ start, Outstanding start s
  unsent : s.syn = false → s.nextSeqno = 0
  rwnd_lt : s.rwnd < 2 ^ 16

/-- The invariants say nothing about the rest of the sender. -/
theorem Sound.frame {s t : TCPSender} (h : Sound s) (hwf : t.stream.Wf)
    (hqueue : t.segmentsInFlight = s.segmentsInFlight) (hnext : t.nextSeqno = s.nextSeqno)
    (hcheckpoint : t.checkpoint = s.checkpoint) (hbytes : t.bytesInFlight = s.bytesInFlight)
    (hsyn : t.syn = s.syn) (hrwnd : t.rwnd < 2 ^ 16) : Sound t := by
  obtain ⟨start, hout⟩ := h.outstanding
  refine ⟨hwf, ⟨start, ?_, ?_, ?_, ?_, ?_⟩, ?_, hrwnd⟩
  · rw [hqueue, hnext]
    exact hout.tiles
  · rw [hcheckpoint]
    exact hout.start_le
  · rw [hcheckpoint, hnext]
    exact hout.checkpoint_le
  · rw [hqueue, hcheckpoint]
    exact hout.front
  · rw [hbytes, hqueue]
    exact hout.bytes_eq
  · rw [hsyn, hnext]
    exact h.unsent

section Send
variable {s t : TCPSender} {seg : TCPSegment} {start : ℕ}

theorem Outstanding.queue_eq (h : Outstanding start s) (hsent : Sent s seg t) :
    t.segmentsInFlight = s.segmentsInFlight ++ [⟨s.nextSeqno, s.stamp seg⟩] := by
  rw [hsent.queue_eq]
  exact h.tiles.orderedInsert_eq (le_refl _)

/-- Nothing is in flight exactly when everything sent is acknowledged. -/
theorem Outstanding.eq_nil_iff (h : Outstanding start s) :
    s.segmentsInFlight = [] ↔ s.checkpoint = s.nextSeqno := by
  have hstart := h.start_le
  have hcp := h.checkpoint_le
  constructor
  · intro hq
    have hend := h.tiles.eq_nil_iff.mp hq
    omega
  · intro hs
    cases hq : s.segmentsInFlight with
    | nil => rfl
    | cons t ts =>
      have hfront := h.front t ts hq
      have hend := (h.tiles.bounds (hq ▸ List.mem_cons_self)).2
      omega

theorem Outstanding.send (h : Outstanding start s) (hsent : Sent s seg t)
    (hpos : 0 < seg.lengthInSequenceSpace) : Outstanding start t := by
  have hqueue := h.queue_eq hsent
  have hlast : Tiles OrderedSegment.absSeqno OrderedSegment.length s.nextSeqno
      [⟨s.nextSeqno, s.stamp seg⟩] t.nextSeqno := by
    rw [hsent.next_eq]
    exact ⟨rfl, hpos, rfl⟩
  refine ⟨?_, ?_, ?_, ?_, ?_⟩
  · rw [hqueue]
    exact Tiles.append_iff.mpr ⟨_, h.tiles, hlast⟩
  · rw [hsent.checkpoint_eq]
    exact h.start_le
  · rw [hsent.checkpoint_eq, hsent.next_eq]
    exact h.checkpoint_le.trans (Nat.le_add_right _ _)
  · intro u us hu
    rw [hqueue] at hu
    rw [hsent.checkpoint_eq]
    cases hq : s.segmentsInFlight with
    | nil =>
      rw [hq] at hu
      cases hu
      exact Nat.lt_of_le_of_lt h.checkpoint_le (Nat.lt_add_of_pos_right hpos)
    | cons v vs =>
      rw [hq] at hu
      cases hu
      exact h.front _ _ hq
  · rw [hsent.bytes_eq, hqueue, h.bytes_eq, List.map_append, List.sum_append]
    rfl

theorem Sound.send (h : Sound s) (hstep : TileStep s seg t) : Sound t := by
  obtain ⟨start, hout⟩ := h.outstanding
  obtain ⟨hwf, hpos⟩ := hstep.wf h.stream_wf
  refine ⟨hwf, ⟨start, hout.send hstep.sent hpos⟩, ?_, ?_⟩
  · intro hsyn
    rw [hstep.sent.syn_eq] at hsyn
    cases hsyn
  · rw [hstep.sent.rwnd_eq]
    exact h.rwnd_lt

theorem Fills.sound {tiles : List OrderedSegment} (hfills : Fills s tiles t) (h : Sound s) :
    Sound t :=
  hfills.induct (fun _ _ _ ht hs => hs.send ht) h

theorem Sound.fillWindow (h : Sound s) : Sound s.fillWindow := by
  obtain ⟨tiles, hfills⟩ := s.fillWindow_fills
  exact hfills.sound h

/-- The tiles sent by one call take up the sequence numbers from the old to the new next one. -/
theorem Fills.tiles {tiles : List OrderedSegment} (hfills : Fills s tiles t) (h : Sound s) :
    Tiles OrderedSegment.absSeqno OrderedSegment.length s.nextSeqno tiles t.nextSeqno := by
  induction hfills with
  | refl s => rfl
  | @cons s t u seg tiles hstep hrest ih =>
    refine ⟨rfl, (hstep.wf h.stream_wf).2, ?_⟩
    have hnext : s.nextSeqno + seg.lengthInSequenceSpace = t.nextSeqno := hstep.sent.next_eq.symm
    have hrest := ih (h.send hstep)
    rwa [← hnext] at hrest

end Send

section Acknowledge
variable {s : TCPSender} {start absAckno : ℕ}

/-- The acknowledged segments are an initial part of the queue. -/
theorem dropAcked_spec (absAckno : ℕ) (queue : List OrderedSegment) (bytes start next : ℕ)
    (h : Tiles OrderedSegment.absSeqno OrderedSegment.length start queue next)
    (hstart : start ≤ absAckno) (hbytes : bytes = (queue.map OrderedSegment.length).sum) :
    ∃ done start', queue = done ++ (dropAcked absAckno queue bytes).1 ∧
      (∀ t ∈ done, t.absSeqno + t.length ≤ absAckno) ∧
      Tiles OrderedSegment.absSeqno OrderedSegment.length start'
        (dropAcked absAckno queue bytes).1 next ∧ start' ≤ absAckno ∧
      (∀ t ts, (dropAcked absAckno queue bytes).1 = t :: ts → absAckno < t.absSeqno + t.length) ∧
      (dropAcked absAckno queue bytes).2 =
        ((dropAcked absAckno queue bytes).1.map OrderedSegment.length).sum := by
  induction queue generalizing bytes start with
  | nil => exact ⟨[], start, rfl, by simp, h, hstart, by simp [dropAcked], hbytes⟩
  | cons t ts ih =>
    rw [dropAcked]
    by_cases hacked : t.absSeqno + t.length ≤ absAckno
    · rw [if_pos hacked]
      have hfirst := h.1
      rw [List.map_cons, List.sum_cons] at hbytes
      obtain ⟨done, start', hqueue, hdone, hrest⟩ :=
        ih (bytes - t.length) (start + t.length) h.2.2 (by omega) (by omega)
      refine ⟨t :: done, start', ?_, ?_, hrest⟩
      · rw [List.cons_append, ← hqueue]
      · intro u hu
        rcases List.mem_cons.mp hu with rfl | hu
        · exact hacked
        · exact hdone u hu
    · rw [if_neg hacked]
      refine ⟨[], start, rfl, by simp, h, hstart, ?_, hbytes⟩
      intro u us hu
      cases hu
      omega

/-- The fields of an acknowledged sender, apart from its timer. -/
theorem acknowledge_eq (s : TCPSender) (absAckno : ℕ) :
    s.acknowledge absAckno = { s with
      checkpoint := absAckno
      segmentsInFlight := (dropAcked absAckno s.segmentsInFlight s.bytesInFlight).1
      bytesInFlight := (dropAcked absAckno s.segmentsInFlight s.bytesInFlight).2
      rto := s.initialRetransmissionTimeout
      nConsecutiveRetransmissions := 0
      timeSpent := (s.acknowledge absAckno).timeSpent
      isTimerRunning := (s.acknowledge absAckno).isTimerRunning } := by
  simp only [acknowledge]
  split <;> rfl

/-- Acknowledging keeps the queue sound and forgets only acknowledged segments. -/
theorem Outstanding.acknowledge (h : Outstanding start s) (hlo : s.checkpoint < absAckno)
    (hhi : absAckno ≤ s.nextSeqno) :
    (∃ start', Outstanding start' (s.acknowledge absAckno)) ∧
    ∃ done, s.segmentsInFlight = done ++ (s.acknowledge absAckno).segmentsInFlight ∧
      ∀ t ∈ done, t.absSeqno + t.length ≤ absAckno := by
  have hstart := h.start_le
  obtain ⟨done, start', hqueue, hdone, htiles, hle, hfront, hsum⟩ :=
    dropAcked_spec absAckno s.segmentsInFlight s.bytesInFlight start s.nextSeqno
      h.tiles (by omega) h.bytes_eq
  rw [acknowledge_eq]
  exact ⟨⟨start', htiles, hle, hhi, hfront, hsum⟩, done, hqueue, hdone⟩

theorem Sound.acknowledge (h : Sound s) (hlo : s.checkpoint < absAckno)
    (hhi : absAckno ≤ s.nextSeqno) : Sound (s.acknowledge absAckno) := by
  obtain ⟨start, hout⟩ := h.outstanding
  have hack := (hout.acknowledge hlo hhi).1
  refine ⟨?_, hack, ?_, ?_⟩
  · rw [acknowledge_eq]
    exact h.stream_wf
  · rw [acknowledge_eq]
    exact h.unsent
  · rw [acknowledge_eq]
    exact h.rwnd_lt

/-- An acknowledgment is either ignored but for its window, or taken up and the window filled. -/
theorem ackReceived_cases (s : TCPSender) (ackno : WrappingInt32) (windowSize : UInt16) :
    s.ackReceived ackno windowSize = { s with rwnd := windowSize.toNat } ∧
      (s.nextSeqno < unwrap ackno s.isn s.checkpoint ∨
        unwrap ackno s.isn s.checkpoint ≤ s.checkpoint) ∨
    s.ackReceived ackno windowSize =
        ({ s with rwnd := windowSize.toNat }.acknowledge
          (unwrap ackno s.isn s.checkpoint)).fillWindow ∧
      s.checkpoint < unwrap ackno s.isn s.checkpoint ∧
      unwrap ackno s.isn s.checkpoint ≤ s.nextSeqno := by
  simp only [ackReceived]
  by_cases hhi : s.nextSeqno < unwrap ackno s.isn s.checkpoint
  · exact Or.inl ⟨if_pos hhi, Or.inl hhi⟩
  · rw [if_neg hhi]
    by_cases hlo : unwrap ackno s.isn s.checkpoint ≤ s.checkpoint
    · exact Or.inl ⟨if_pos hlo, Or.inr hlo⟩
    · exact Or.inr ⟨if_neg hlo, by omega, by omega⟩

theorem Sound.rwnd_congr (h : Sound s) (windowSize : UInt16) :
    Sound { s with rwnd := windowSize.toNat } :=
  h.frame h.stream_wf rfl rfl rfl rfl rfl windowSize.toNat_lt

theorem Sound.ackReceived (h : Sound s) (ackno : WrappingInt32) (windowSize : UInt16) :
    Sound (s.ackReceived ackno windowSize) := by
  rcases s.ackReceived_cases ackno windowSize with ⟨heq, -⟩ | ⟨heq, hlo, hhi⟩
  · rw [heq]
    exact h.rwnd_congr _
  · rw [heq]
    exact ((h.rwnd_congr windowSize).acknowledge hlo hhi).fillWindow

end Acknowledge

section Tick
variable {s : TCPSender}

theorem retransmit_eq (s : TCPSender) :
    s.retransmit = { s with
      segmentsOut := s.retransmit.segmentsOut
      timeSpent := s.retransmit.timeSpent
      nConsecutiveRetransmissions := s.retransmit.nConsecutiveRetransmissions
      rto := s.retransmit.rto } := by
  rw [retransmit]
  split
  · rfl
  · dsimp only
    split
    · split <;> rfl
    · rfl

/-- `tick` changes the output queue, the timer and the counters of the timer only. -/
theorem tick_eq (s : TCPSender) (ms : ℕ) :
    s.tick ms = { s with
      segmentsOut := (s.tick ms).segmentsOut
      timeSpent := (s.tick ms).timeSpent
      isTimerRunning := (s.tick ms).isTimerRunning
      nConsecutiveRetransmissions := (s.tick ms).nConsecutiveRetransmissions
      rto := (s.tick ms).rto } := by
  simp only [tick]
  generalize hu : ({ s with timeSpent := addMod 64 s.timeSpent ms } : TCPSender) = u
  have hr := retransmit_eq u
  generalize u.retransmit = w at hr ⊢
  rw [hr]
  subst hu
  split <;> rfl

/-- What `tick` pushes: the top of the queue, if there is one and the time is up. -/
theorem tick_segmentsOut (s : TCPSender) (ms : ℕ) :
    (s.tick ms).segmentsOut = s.segmentsOut ++
      match s.segmentsInFlight with
      | [] => []
      | t :: _ => if s.rto ≤ addMod 64 s.timeSpent ms then [t.seg] else [] := by
  have htick : (s.tick ms).segmentsOut =
      ({ s with timeSpent := addMod 64 s.timeSpent ms } : TCPSender).retransmit.segmentsOut := by
    simp only [tick]
    split <;> rfl
  rw [htick]
  rw [retransmit]
  cases hq : s.segmentsInFlight with
  | nil => simp
  | cons t ts =>
    dsimp only
    by_cases hexpired : s.rto ≤ addMod 64 s.timeSpent ms
    · rw [if_pos hexpired, if_pos hexpired]
      split <;> rfl
    · rw [if_neg hexpired, if_neg hexpired, List.append_nil]

theorem Sound.tick (h : Sound s) (ms : ℕ) : Sound (s.tick ms) := by
  rw [tick_eq]
  exact h.frame h.stream_wf rfl rfl rfl rfl rfl h.rwnd_lt

end Tick

theorem Sound.writeStream {s : TCPSender} (h : Sound s) (data : List Byte) :
    Sound (s.writeStream data) :=
  h.frame h.stream_wf.write rfl rfl rfl rfl rfl h.rwnd_lt

theorem Sound.endStream {s : TCPSender} (h : Sound s) : Sound s.endStream :=
  h.frame h.stream_wf.endInput rfl rfl rfl rfl rfl h.rwnd_lt

theorem Sound.sendEmptySegment {s : TCPSender} (h : Sound s) : Sound s.sendEmptySegment :=
  h.frame h.stream_wf rfl rfl rfl rfl rfl h.rwnd_lt

theorem Sound.step {s : TCPSender} (h : Sound s) (op : Op) : Sound (s.step op) := by
  cases op with
  | write data => exact h.writeStream data
  | endInput => exact h.endStream
  | fillWindow => exact h.fillWindow
  | ackReceived ackno windowSize => exact h.ackReceived ackno windowSize
  | tick ms => exact h.tick ms
  | sendEmptySegment => exact h.sendEmptySegment

/-- Once the FIN is sent, the input has ended and the stream is empty. -/
def Finished (s : TCPSender) : Prop :=
  s.fin = true → s.stream.isInputEnded = true ∧ s.stream.contents = []

theorem Finished.send {s t : TCPSender} {seg : TCPSegment} (h : s.Finished)
    (hstep : TileStep s seg t) : t.Finished := by
  cases hstep with
  | syn hsyn =>
    rw [sendSYN, sendSegment_eq]
    exact h
  | data n hn hsyn hfin hpending =>
    intro hflag
    rw [fillStep_fin hfin] at hflag
    rw [fillStep_stream hfin]
    exact cutFin_drained hflag

theorem Finished.fillWindow {s : TCPSender} (h : s.Finished) : s.fillWindow.Finished := by
  obtain ⟨tiles, hfills⟩ := s.fillWindow_fills
  exact hfills.induct (fun _ _ _ hstep hs => hs.send hstep) h

theorem Finished.ackReceived {s : TCPSender} (h : s.Finished) (ackno : WrappingInt32)
    (windowSize : UInt16) : (s.ackReceived ackno windowSize).Finished := by
  rcases s.ackReceived_cases ackno windowSize with ⟨heq, -⟩ | ⟨heq, -⟩
  · rw [heq]
    exact h
  · rw [heq]
    apply Finished.fillWindow
    rw [acknowledge_eq]
    exact h

theorem Finished.writeStream {s : TCPSender} {data : List Byte} (h : s.Finished)
    (hwf : s.stream.Wf) (hnone : s.fin = true → s.stream.writeSize data = 0) :
    (s.writeStream data).Finished := by
  intro hfin
  obtain ⟨hended, hempty⟩ := h hfin
  have hlt := hwf.end_lt
  have hsize := hnone hfin
  change (s.stream.write data).isInputEnded = true ∧ (s.stream.write data).contents = []
  refine ⟨?_, ?_⟩
  · rw [ByteStream.write_frame]
    exact hended
  · rw [hwf.contents_write (by omega), hsize, hempty]
    rfl

theorem sound_new {capacity : ℕ} {retxTimeout : UInt16} {fixedIsn : Option WrappingInt32}
    {random : WrappingInt32} {s : TCPSender}
    (h : new capacity retxTimeout fixedIsn random = some s) : Sound s := by
  obtain ⟨stream, hstream, rfl⟩ := new_eq_some h
  exact ⟨ByteStream.wf_new hstream, ⟨0, rfl, le_refl 0, le_refl 0, by simp, rfl⟩, fun _ => rfl,
    show 1 < 2 ^ 16 by decide⟩

theorem finished_new {capacity : ℕ} {retxTimeout : UInt16} {fixedIsn : Option WrappingInt32}
    {random : WrappingInt32} {s : TCPSender}
    (h : new capacity retxTimeout fixedIsn random = some s) : s.Finished := by
  obtain ⟨stream, -, rfl⟩ := new_eq_some h
  exact fun hfin => Bool.noConfusion hfin

def machine : Machine TCPSender Op := ⟨step, fun _ _ => True⟩

instance (s : TCPSender) (op : Op) : Decidable (machine.enabled s op) := .isTrue trivial

theorem admits_all (s : TCPSender) (ops : List Op) : machine.Admits s ops := by
  induction ops generalizing s with
  | nil => trivial
  | cons op ops ih => exact ⟨trivial, ih _⟩

theorem Sound.run {s : TCPSender} (h : Sound s) (ops : List Op) : Sound (machine.run s ops) :=
  machine.invariant h (fun _ op ht _ => ht.step op) (admits_all s ops)

/-- In every reachable state the queue covers exactly what is not yet acknowledged. -/
theorem in_flight_covers_unacknowledged {capacity : ℕ} {retxTimeout : UInt16}
    {fixedIsn : Option WrappingInt32} {random : WrappingInt32} {s₀ : TCPSender}
    (hnew : new capacity retxTimeout fixedIsn random = some s₀) (ops : List Op) :
    let s := machine.run s₀ ops
    (∀ t ∈ s.segmentsInFlight, 1 ≤ t.length) ∧
    (∃ start, Tiles OrderedSegment.absSeqno OrderedSegment.length start s.segmentsInFlight
      s.nextSeqno) ∧
    (∀ t ts, s.segmentsInFlight = t :: ts →
      t.absSeqno ≤ s.checkpoint ∧ s.checkpoint < t.absSeqno + t.length) ∧
    (s.segmentsInFlight = [] ↔ s.checkpoint = s.nextSeqno) ∧
    s.bytesInFlight = (s.segmentsInFlight.map OrderedSegment.length).sum ∧
    ∀ q, s.checkpoint ≤ q → q < s.nextSeqno →
      ∃! t, t ∈ s.segmentsInFlight ∧ t.absSeqno ≤ q ∧ q < t.absSeqno + t.length := by
  obtain ⟨start, hout⟩ := ((sound_new hnew).run ops).outstanding
  have hstart := hout.start_le
  refine ⟨fun t ht => hout.tiles.len_pos ht, ⟨start, hout.tiles⟩, ?_, hout.eq_nil_iff,
    hout.bytes_eq, ?_⟩
  · intro t ts hq
    have htiles := hout.tiles
    rw [hq] at htiles
    exact ⟨htiles.1 ▸ hstart, hout.front t ts hq⟩
  · intro q hlo hhi
    exact hout.tiles.existsUnique (by omega) hhi

theorem in_flight_covers_unacknowledged_partial :
    ∃ s₀, new 8 1000 (some ⟨5⟩) ⟨0⟩ = some s₀ ∧
      let s := machine.run s₀ [.fillWindow, .ackReceived ⟨6⟩ 9, .write [1, 2, 3, 4], .fillWindow,
        .ackReceived ⟨8⟩ 9]
      (∀ t ∈ s.segmentsInFlight, 1 ≤ t.length) ∧
      (∃ start, Tiles OrderedSegment.absSeqno OrderedSegment.length start s.segmentsInFlight
        s.nextSeqno) ∧
      (∀ t ts, s.segmentsInFlight = t :: ts →
        t.absSeqno ≤ s.checkpoint ∧ s.checkpoint < t.absSeqno + t.length) ∧
      (s.segmentsInFlight = [] ↔ s.checkpoint = s.nextSeqno) ∧
      s.bytesInFlight = (s.segmentsInFlight.map OrderedSegment.length).sum ∧
      ∀ q, s.checkpoint ≤ q → q < s.nextSeqno →
        ∃! t, t ∈ s.segmentsInFlight ∧ t.absSeqno ≤ q ∧ q < t.absSeqno + t.length :=
  ⟨_, rfl, in_flight_covers_unacknowledged
    (show new 8 1000 (some ⟨5⟩) ⟨0⟩ = some _ from rfl) _⟩

end TCPSender
end Sponge
