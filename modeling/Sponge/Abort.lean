import Sponge.Backoff
import Sponge.DeadConnection
import Sponge.FillWindow

/-!
# The abort of a connection

The reset goes on whatever segment comes last out of the sender's queue, and a tick that gives up
goes through `_send_segments` once more. The reset is the last segment all the same, because a
second `fill_window` finds nothing to send.
-/
namespace Sponge

namespace TCPSender

/-- No segment the sender keeps carries a reset. -/
structure Unreset (s : TCPSender) : Prop where
  queued : ∀ seg ∈ s.segmentsOut, seg.header.rst = false
  in_flight : ∀ t ∈ s.segmentsInFlight, t.seg.header.rst = false

section Unreset
variable {s t : TCPSender}

theorem TileStep.stamp_rst {seg : TCPSegment} (h : TileStep s seg t) :
    (s.stamp seg).header.rst = false := by
  cases h <;> rfl

theorem Unreset.send {seg : TCPSegment} (h : Unreset s) (hstep : TileStep s seg t) :
    Unreset t := by
  have hsent := hstep.sent
  constructor
  · rw [hsent.segmentsOut_eq]
    exact List.forall_mem_append.mpr
      ⟨h.queued, List.forall_mem_singleton.mpr hstep.stamp_rst⟩
  · rw [hsent.queue_eq]
    intro u hu
    rcases (List.mem_orderedInsert _).mp hu with rfl | hu
    · exact hstep.stamp_rst
    · exact h.in_flight u hu

theorem Unreset.fillWindow (h : Unreset s) : Unreset s.fillWindow := by
  obtain ⟨tiles, hfills⟩ := s.fillWindow_fills
  exact hfills.induct (fun _ _ _ hstep hs => hs.send hstep) h

theorem mem_of_mem_dropAcked {absAckno : ℕ} {queue : List OrderedSegment} {bytes : ℕ}
    {t : OrderedSegment} (h : t ∈ (dropAcked absAckno queue bytes).1) : t ∈ queue := by
  induction queue generalizing bytes with
  | nil => exact h
  | cons u queue ih =>
    rw [dropAcked] at h
    split at h
    · exact List.mem_cons_of_mem _ (ih h)
    · exact h

theorem Unreset.ackReceived (h : Unreset s) (ackno : WrappingInt32) (windowSize : UInt16) :
    Unreset (s.ackReceived ackno windowSize) := by
  rcases s.ackReceived_cases ackno windowSize with ⟨heq, -⟩ | ⟨heq, -⟩
  · rw [heq]
    exact ⟨h.queued, h.in_flight⟩
  · rw [heq]
    apply Unreset.fillWindow
    rw [acknowledge_eq]
    exact ⟨h.queued, fun t ht => h.in_flight t (mem_of_mem_dropAcked ht)⟩

theorem Unreset.tick (h : Unreset s) (ms : ℕ) : Unreset (s.tick ms) := by
  have hqueue : (s.tick ms).segmentsInFlight = s.segmentsInFlight := by rw [tick_eq]
  constructor
  · rw [tick_segmentsOut]
    refine List.forall_mem_append.mpr ⟨h.queued, ?_⟩
    cases htop : s.segmentsInFlight with
    | nil => exact List.forall_mem_nil _
    | cons t ts =>
      dsimp only
      split
      · exact List.forall_mem_singleton.mpr (h.in_flight t (htop ▸ List.mem_cons_self))
      · exact List.forall_mem_nil _
  · rw [hqueue]
    exact h.in_flight

theorem Unreset.sendEmptySegment (h : Unreset s) : Unreset s.sendEmptySegment :=
  ⟨List.forall_mem_append.mpr ⟨h.queued, List.forall_mem_singleton.mpr rfl⟩, h.in_flight⟩

theorem Unreset.step (h : Unreset s) (op : Op) : Unreset (s.step op) := by
  cases op with
  | write data => exact ⟨h.queued, h.in_flight⟩
  | endInput => exact ⟨h.queued, h.in_flight⟩
  | fillWindow => exact h.fillWindow
  | ackReceived ackno windowSize => exact h.ackReceived ackno windowSize
  | tick ms => exact h.tick ms
  | sendEmptySegment => exact h.sendEmptySegment

end Unreset

/-- Nothing is in flight before the SYN is sent. -/
theorem Sound.syn_of_in_flight {s : TCPSender} (h : Sound s) (hsome : s.segmentsInFlight ≠ []) :
    s.syn = true := by
  by_contra hclosed
  obtain ⟨start, hout⟩ := h.outstanding
  have hzero := h.unsent (Bool.not_eq_true _ ▸ hclosed)
  have hstart := hout.start_le
  have hcheckpoint := hout.checkpoint_le
  exact hsome (hout.eq_nil_iff.mpr (by omega))

/-- Once the window is filled there is nothing more to send, whatever the owner wrote after the
end of its stream. -/
theorem Sound.fillWindow_idle {s : TCPSender} (h : Sound s) (hsyn : s.syn = true) :
    s.fillWindow.Idle := by
  obtain ⟨tiles, hfills⟩ := s.fillWindow_fills
  have hsent : s.fillWindow.syn = true :=
    hfills.induct (fun _ _ _ hstep _ => hstep.sent.syn_eq) hsyn
  refine ⟨hsent, ?_⟩
  cases hfin : s.fin with
  | true => exact Or.inr (Or.inl (fillWindow_fin hfin))
  | false =>
    have hunfinished : s.Finished := fun hset => by
      rw [hfin] at hset
      cases hset
    rcases fillWindow_done h hunfinished hsyn with hnothing | hwindow
    · right
      by_contra hmore
      simp only [not_or, Bool.not_eq_true, Bool.not_eq_false] at hmore
      exact hnothing.not_looping 1 ⟨Nat.one_ne_zero, hmore.1, hmore.2⟩
    · exact Or.inl hwindow

end TCPSender

namespace TCPConnection
open TCPSender

/-- The destructor, up to what it prints. -/
def destroy (c : TCPConnection) : TCPConnection := if c.isActive then c.uncleanShutdown else c

/-- `d` is what an abort makes of `c`: an inactive connection with an error on both streams and a
reset as the last of the segments it has pushed. -/
structure Aborts (c d : TCPConnection) : Prop where
  outbound_error : d.sender.stream.error = true
  inbound_error : d.inboundStream.error = true
  inactive : d.isActive = false
  reset_last : ∃ front last, d.segmentsOut = c.segmentsOut ++ (front ++ [last]) ∧
    last.header.rst = true ∧ ∀ seg ∈ front, seg.header.rst = false

section Dress
variable (v : TCPReceiver)

theorem dress_rst (rst : Bool) (seg : TCPSegment) :
    (dress v rst seg).header.rst = (rst || seg.header.rst) := by
  rw [dress]
  cases v.ackno <;> cases rst <;> rfl

theorem dressAll_false (segs : List TCPSegment) :
    dressAll v false segs = segs.map (dress v false) := by
  induction segs with
  | nil => rfl
  | cons seg segs ih => rw [dressAll, ih, List.map_cons, Bool.false_and]

theorem dressAll_true (front : List TCPSegment) (last : TCPSegment) :
    dressAll v true (front ++ [last]) = front.map (dress v false) ++ [dress v true last] := by
  induction front with
  | nil => rfl
  | cons seg front ih =>
    have hmore : (front ++ [last]).isEmpty = false := by simp
    rw [List.cons_append, dressAll, ih, hmore, Bool.and_false, List.map_cons, List.cons_append]

theorem forall_dress_rst {segs : List TCPSegment} (h : ∀ seg ∈ segs, seg.header.rst = false) :
    ∀ seg ∈ segs.map (dress v false), seg.header.rst = false := by
  intro seg hseg
  obtain ⟨orig, horig, rfl⟩ := List.mem_map.mp hseg
  rw [dress_rst, h orig horig, Bool.or_false]

end Dress

section Calls
variable {c : TCPConnection} {op : Op}

theorem sendSegments_unreset (h : c.sender.Unreset) :
    ∃ more, (c.sendSegments false).segmentsOut = c.segmentsOut ++ more ∧
      ∀ seg ∈ more, seg.header.rst = false := by
  refine ⟨_, c.sendSegments_segmentsOut false, ?_⟩
  rw [dressAll_false]
  exact forall_dress_rst _ h.fillWindow.queued

theorem unreset_of_silent {d : TCPConnection} (hsame : d.segmentsOut = c.segmentsOut) :
    ∃ more, d.segmentsOut = c.segmentsOut ++ more ∧ ∀ seg ∈ more, seg.header.rst = false :=
  ⟨[], by rw [hsame, List.append_nil], List.forall_mem_nil _⟩

/-- What `_unclean_shutdown` does before it sends: the connection is dead and has a segment to put
the reset on. -/
def condemn (c : TCPConnection) : TCPConnection :=
  let c := c.killConnection
  if c.sender.segmentsOut = [] then c.sendEmptySegment else c

theorem condemn_queue (c : TCPConnection) : c.condemn.sender.segmentsOut ≠ [] := by
  simp only [condemn]
  split
  · exact c.killConnection.sendEmptySegment_queue
  · next hsome => exact hsome

theorem condemn_sender {I : TCPSender → Prop}
    (herror : ∀ s, I s → I { s with stream := s.stream.setError })
    (hempty : ∀ s, I s → I s.sendEmptySegment) (h : I c.sender) : I c.condemn.sender := by
  simp only [condemn]
  split
  · exact hempty _ (herror _ h)
  · exact herror _ h

theorem condemn_error (c : TCPConnection) : c.condemn.sender.stream.error = true ∧
    c.condemn.inboundStream.error = true ∧ c.condemn.isActive = false ∧
      c.condemn.segmentsOut = c.segmentsOut := by
  simp only [condemn]
  split <;> exact ⟨rfl, rfl, rfl, rfl⟩

theorem uncleanShutdown_aborts (h : c.sender.Unreset) : c.Aborts c.uncleanShutdown := by
  change c.Aborts (c.condemn.sendSegments true)
  obtain ⟨houtbound, hinbound, hdead, hpushed⟩ := c.condemn_error
  have hqueue : c.condemn.sender.Unreset :=
    condemn_sender (fun _ hs => ⟨hs.queued, hs.in_flight⟩) (fun _ hs => hs.sendEmptySegment) h
  have hsome : c.condemn.sender.fillWindow.segmentsOut ≠ [] := fun hnone =>
    c.condemn_queue (fillWindow_segmentsOut_eq_nil_iff.mp hnone).1
  refine ⟨?_, ?_, Move.dead (.send true) hdead, ?_⟩
  · rw [sendSegments_error]
    exact houtbound
  · rw [inboundStream, (c.condemn.sendSegments_eq true).2]
    exact hinbound
  · obtain ⟨front, last, hsplit⟩ := (List.eq_nil_or_concat' _).resolve_left hsome
    have hplain := hqueue.fillWindow.queued
    rw [hsplit] at hplain
    refine ⟨front.map (dress c.condemn.receiver false), dress c.condemn.receiver true last, ?_, ?_,
      forall_dress_rst _ fun seg hseg => hplain seg (List.mem_append_left _ hseg)⟩
    · rw [sendSegments_segmentsOut, hsplit, dressAll_true, hpushed]
    · rw [dress_rst, Bool.true_or]

theorem tick_attempts (c : TCPConnection) (ms : ℕ) :
    (c.tick ms).sender.nConsecutiveRetransmissions =
      (c.sender.tick ms).nConsecutiveRetransmissions := by
  change (c.step (.tick ms)).sender.nConsecutiveRetransmissions = _
  refine step_induct (I := fun d => d.sender.nConsecutiveRetransmissions =
    (c.sender.tick ms).nConsecutiveRetransmissions) ?_ rfl
  intro d e hmove hd
  cases hmove with
  | send setRst =>
    obtain ⟨tiles, hfills⟩ := d.sender.fillWindow_fills
    rw [(d.sendSegments_eq setRst).1]
    exact hfills.induct (fun _ _ _ hstep hs => hstep.attempts_eq.trans hs) hd
  | kill => exact hd
  | empty => exact hd

/-- The second round of sending finds the window filled. -/
theorem tick_aborts (hsound : Sound c.sender) (h : c.sender.Unreset) {ms : ℕ}
    (hsome : c.sender.segmentsInFlight ≠ [])
    (hretx : maxRetxAttempts < (c.sender.tick ms).nConsecutiveRetransmissions) :
    c.Aborts (c.tick ms) := by
  rw [tick_of_exhausted hretx]
  generalize hd : c.prelude (.tick ms) = d
  have hsender : d.sender = c.sender.tick ms := by rw [← hd, prelude]
  have hpushed : d.segmentsOut = c.segmentsOut := by rw [← hd, prelude_segmentsOut]
  have haborts : d.Aborts d.uncleanShutdown := by
    apply uncleanShutdown_aborts
    rw [hsender]
    exact h.tick ms
  have hidle : d.uncleanShutdown.sender.Idle := by
    have hcondemned : Sound d.condemn.sender ∧ d.condemn.sender.syn = true := by
      refine condemn_sender (I := fun s => Sound s ∧ s.syn = true)
        (fun _ hs => ⟨hs.1.setError, hs.2⟩) (fun _ hs => ⟨hs.1.sendEmptySegment, hs.2⟩) ?_
      rw [hsender]
      refine ⟨hsound.tick ms, (hsound.tick ms).syn_of_in_flight ?_⟩
      rw [tick_eq]
      exact hsome
    change (d.condemn.sendSegments true).sender.Idle
    rw [(d.condemn.sendSegments_eq true).1]
    exact hcondemned.1.fillWindow_idle hcondemned.2
  have hemptied : d.uncleanShutdown.sender.segmentsOut = [] :=
    (d.condemn.emptied_sendSegments true).queue_eq
  have hsilent := (sendSegments_idle_iff d.uncleanShutdown false hemptied).mpr hidle
  refine ⟨?_, ?_, Move.dead (.send false) haborts.inactive, ?_⟩
  · rw [sendSegments_error]
    exact haborts.outbound_error
  · rw [inboundStream, (d.uncleanShutdown.sendSegments_eq false).2]
    exact haborts.inbound_error
  · rw [hsilent, ← hpushed]
    exact haborts.reset_last

theorem segmentReceived_unreset (h : c.sender.Unreset) (seg : TCPSegment) :
    ∃ more, (c.segmentReceived seg).segmentsOut = c.segmentsOut ++ more ∧
      ∀ seg ∈ more, seg.header.rst = false := by
  cases hrst : seg.header.rst with
  | true =>
    rw [segmentReceived_of_rst hrst]
    exact unreset_of_silent rfl
  | false =>
    by_cases htakes : c.Takes seg
    · have hsame := takeIn_segmentsOut { c with timeSinceLastSegmentReceived := 0 } seg
      have htaken : ({ c with timeSinceLastSegmentReceived := 0 }.takeIn seg).sender.Unreset := by
        rw [takeIn_sender]
        split
        · exact h.ackReceived _ _
        · exact h
      rw [segmentReceived_of_takes htakes]
      generalize takeIn _ seg = d at hsame htaken ⊢
      change d.segmentsOut = c.segmentsOut at hsame
      rw [← hsame]
      split
      · exact sendSegments_unreset (c := d.sendEmptySegment) htaken.sendEmptySegment
      · exact sendSegments_unreset htaken
    · rw [segmentReceived_of_not_takes hrst htakes]
      exact unreset_of_silent rfl

theorem step_unreset (h : c.sender.Unreset)
    (hfew : ∀ ms, op = .tick ms →
      (c.sender.tick ms).nConsecutiveRetransmissions ≤ maxRetxAttempts) :
    ∃ more, (c.step op).segmentsOut = c.segmentsOut ++ more ∧
      ∀ seg ∈ more, seg.header.rst = false := by
  cases op with
  | segmentReceived seg => exact segmentReceived_unreset h seg
  | write data => exact sendSegments_unreset (h.step (.write data))
  | tick ms =>
    change ∃ more, (c.tick ms).segmentsOut = _ ∧ _
    rw [tick_of_not_exhausted (Nat.not_lt.mpr (hfew ms rfl))]
    split
    · exact sendSegments_unreset (h.tick ms)
    · exact unreset_of_silent rfl
  | endInputStream => exact sendSegments_unreset (h.step .endInput)
  | connect => exact sendSegments_unreset h
  | read len => exact unreset_of_silent rfl
  | pop len => exact unreset_of_silent rfl

end Calls

section Runs
variable {cfg : TCPConfig} {random : WrappingInt32} {c₀ : TCPConnection}

theorem sound_run (hnew : new cfg random = some c₀) (ops : List Op) :
    Sound (machine.run c₀ ops).sender ∧ (machine.run c₀ ops).sender.Unreset := by
  induction ops using List.reverseRecOn with
  | nil =>
    obtain ⟨receiver, sender, -, hsender, rfl⟩ := new_eq_some hnew
    refine ⟨sound_new hsender, ?_⟩
    obtain ⟨stream, -, rfl⟩ := TCPSender.new_eq_some hsender
    exact ⟨List.forall_mem_nil _, List.forall_mem_nil _⟩
  | append_singleton ops op ih =>
    rw [machine.run_snoc]
    exact step_sender (I := fun s => Sound s ∧ s.Unreset)
      (fun _ op hs => ⟨hs.1.step op, hs.2.step op⟩)
      (fun _ hs => ⟨hs.1.segmentsOut_congr [], List.forall_mem_nil _, hs.2.in_flight⟩)
      (fun _ hs => ⟨hs.1.setError, hs.2.queued, hs.2.in_flight⟩) ih

/-- A tick that goes beyond the number of attempts aborts an active connection, and so does the
destructor; nothing else makes it push a reset. -/
theorem abort_resets_last (hnew : new cfg random = some c₀) (ops : List Op)
    (hactive : (machine.run c₀ ops).isActive = true) :
    let c := machine.run c₀ ops
    (∀ ms, maxRetxAttempts < (c.tick ms).sender.nConsecutiveRetransmissions →
      c.Aborts (c.tick ms)) ∧
    c.Aborts c.destroy ∧
    ∀ op, (∀ ms, op = .tick ms →
        (c.tick ms).sender.nConsecutiveRetransmissions ≤ maxRetxAttempts) →
      ∃ more, (c.step op).segmentsOut = c.segmentsOut ++ more ∧
        ∀ seg ∈ more, seg.header.rst = false := by
  intro c
  obtain ⟨hsound, hunreset⟩ := sound_run hnew ops
  refine ⟨?_, ?_, ?_⟩
  · intro ms hretx
    rw [tick_attempts] at hretx
    have hbefore := ((backsOff_run hnew ops).2.doubled hactive).attempts_le
    have hsome : c.sender.segmentsInFlight ≠ [] := by
      rcases c.sender.tick_backoff ms with ⟨hsame, -⟩ | ⟨hsome, -⟩
      · rw [hsame] at hretx
        exact absurd hbefore (Nat.not_le.mpr hretx)
      · exact hsome
    exact tick_aborts hsound hunreset hsome hretx
  · rw [destroy, if_pos hactive]
    exact uncleanShutdown_aborts hunreset
  · intro op hfew
    refine step_unreset hunreset fun ms hms => ?_
    rw [← tick_attempts]
    exact hfew ms hms

section Unanswered
open Network

/-- The SYN is sent and retransmitted eight times. -/
def unanswered : List Op := .connect :: (List.range 8).map fun k => .tick (1000 * 2 ^ k)

theorem abort_resets_last_unanswered :
    (machine.run (smallNet .A) unanswered).isActive = true ∧
      (machine.run (smallNet .A) unanswered).Aborts
        ((machine.run (smallNet .A) unanswered).tick 256000) ∧
      (machine.run (smallNet .A) unanswered).Aborts
        (machine.run (smallNet .A) unanswered).destroy := by
  have hactive : (machine.run (smallNet .A) unanswered).isActive = true := by decide +kernel
  obtain ⟨htick, hdestroy, -⟩ := abort_resets_last (smallNet_new .A) unanswered hactive
  exact ⟨hactive, htick 256000 (by decide +kernel), hdestroy⟩

end Unanswered

end Runs
end TCPConnection
end Sponge
