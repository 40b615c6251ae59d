import Sponge.TCPSender
import Sponge.Loops

/-!
# What `fill_window` and `ack_received` do to the segments of a sender

Filling the window is a sequence of single sends, each of one new tile. The
tiles ever sent cover the sequence space from zero; those in flight cover its
end, from a number at or before the checkpoint.
-/
namespace Sponge
open MachineWords
namespace TCPSender

theorem sendSegment_eq (s : TCPSender) (seg : TCPSegment) :
    s.sendSegment seg = { s with
      segmentsOut := s.segmentsOut ++ [s.stamp seg]
      segmentsInFlight := OrderedSegment.enqueue s.segmentsInFlight ⟨s.nextSeqno, s.stamp seg⟩
      nextSeqno := s.nextSeqno + seg.lengthInSequenceSpace
      bytesInFlight := s.bytesInFlight + seg.lengthInSequenceSpace
      isTimerRunning := true
      timeSpent := if s.isTimerRunning then s.timeSpent else 0
      rto := if s.isTimerRunning then s.rto else s.initialRetransmissionTimeout } := by
  rw [sendSegment]
  cases h : s.isTimerRunning <;> rfl

/-- The payload taken from the stream in a turn of the loop, and what is left of the stream. -/
def cut (s : TCPSender) (n : ℕ) : List Byte × ByteStream := s.stream.read (payloadSize n)

def cutFin (s : TCPSender) (n : ℕ) : Bool :=
  (s.cut n).2.eof && decide ((s.cut n).1.length < n)

def tile (s : TCPSender) (n : ℕ) : TCPSegment :=
  { header := { fin := s.cutFin n }, payload := (s.cut n).1 }

theorem fillStep_fst {s : TCPSender} (hfin : s.fin = false) (n : ℕ) :
    (s.fillStep n).1 =
      { s with stream := (s.cut n).2, fin := s.cutFin n }.sendSegment (s.tile n) := by
  simp only [fillStep]
  have hlen : ({ payload := (s.stream.read (payloadSize n)).1 } : TCPSegment).lengthInSequenceSpace =
      (s.cut n).1.length := rfl
  rw [hlen]
  by_cases hc : ((s.stream.read (payloadSize n)).2.eof && decide ((s.cut n).1.length < n)) = true
  · rw [if_pos hc]
    have hcut : s.cutFin n = true := hc
    rw [tile, hcut]
    rfl
  · rw [if_neg hc]
    have hcut : s.cutFin n = false := by
      rw [Bool.not_eq_true] at hc
      exact hc
    rw [tile, hcut, ← hfin]
    rfl

theorem fillStep_snd (s : TCPSender) (n : ℕ) :
    (s.fillStep n).2 = subMod 64 (if s.cutFin n then n - 1 else n) (payloadSize n) := by
  simp only [fillStep]
  by_cases hc : s.cutFin n = true
  · rw [if_pos hc]
    exact congrArg Prod.snd (if_pos hc)
  · rw [if_neg hc]
    exact congrArg Prod.snd (if_neg hc)

/-- The sending of one new tile. -/
inductive TileStep (s : TCPSender) : TCPSegment → TCPSender → Prop
  | syn (hsyn : s.syn = false) : TileStep s { header := { syn := true } } s.sendSYN
  | data (n : ℕ) (hn : n ≠ 0) (hsyn : s.syn = true) (hfin : s.fin = false)
      (hpending : s.hasPending = true) : TileStep s (s.tile n) (s.fillStep n).1

/-- A sequence of sends with the tiles sent, at their absolute sequence numbers. -/
inductive Fills : TCPSender → List OrderedSegment → TCPSender → Prop
  | refl (s : TCPSender) : Fills s [] s
  | cons {s t u : TCPSender} {seg : TCPSegment} {tiles : List OrderedSegment}
      (hstep : TileStep s seg t) (hrest : Fills t tiles u) :
      Fills s (⟨s.nextSeqno, s.stamp seg⟩ :: tiles) u

theorem fillLoop_fills (fuel : ℕ) (s : TCPSender) (n : ℕ) (hsyn : s.syn = true) :
    ∃ tiles, Fills s tiles (fillLoop fuel s n) := by
  induction fuel generalizing s n with
  | zero => exact ⟨[], .refl s⟩
  | succ fuel ih =>
    rw [fillLoop]
    by_cases hexit : n = 0 ∨ s.fin = true
    · rw [if_pos hexit]
      exact ⟨[], .refl s⟩
    · rw [if_neg hexit]
      simp only [not_or, Bool.not_eq_true] at hexit
      cases hp : s.hasPending with
      | false => exact ⟨[], .refl s⟩
      | true =>
        have hsyn' : (s.fillStep n).1.syn = true := by
          rw [fillStep_fst hexit.2, sendSegment_eq]
          exact hsyn
        obtain ⟨tiles, htiles⟩ := ih (s.fillStep n).1 (s.fillStep n).2 hsyn'
        exact ⟨_, .cons (.data n hexit.1 hsyn hexit.2 hp) htiles⟩

theorem fillWindow_of_not_syn {s : TCPSender} (hsyn : s.syn = false) :
    s.fillWindow = s.sendSYN := by
  simp [fillWindow, hsyn]

theorem fillWindow_eq {s : TCPSender} (hsyn : s.syn = true) :
    s.fillWindow = fillLoop (s.stream.bufferSize + 1) s s.remainingWindow := by
  simp [fillWindow, hsyn]

theorem fillWindow_fills (s : TCPSender) : ∃ tiles, Fills s tiles s.fillWindow := by
  cases hsyn : s.syn with
  | false =>
    rw [fillWindow_of_not_syn hsyn]
    exact ⟨_, .cons (.syn hsyn) (.refl _)⟩
  | true =>
    rw [fillWindow_eq hsyn]
    exact fillLoop_fills _ s _ hsyn

/-- A property kept by every single send is kept by filling the window. -/
theorem Fills.induct {I : TCPSender → Prop} (hstep : ∀ s seg t, TileStep s seg t → I s → I t)
    {s u : TCPSender} {tiles : List OrderedSegment} (h : Fills s tiles u) (hs : I s) : I u := by
  induction h with
  | refl s => exact hs
  | cons ht _ ih => exact ih (hstep _ _ _ ht hs)

section Frame
variable {s t : TCPSender} {seg : TCPSegment} {tiles : List OrderedSegment}

/-- Everything a send leaves alone, and where the new tile goes. -/
structure Sent (s : TCPSender) (seg : TCPSegment) (t : TCPSender) : Prop where
  isn_eq : t.isn = s.isn
  timeout_eq : t.initialRetransmissionTimeout = s.initialRetransmissionTimeout
  checkpoint_eq : t.checkpoint = s.checkpoint
  rwnd_eq : t.rwnd = s.rwnd
  syn_eq : t.syn = true
  segmentsOut_eq : t.segmentsOut = s.segmentsOut ++ [s.stamp seg]
  queue_eq : t.segmentsInFlight =
    OrderedSegment.enqueue s.segmentsInFlight ⟨s.nextSeqno, s.stamp seg⟩
  next_eq : t.nextSeqno = s.nextSeqno + seg.lengthInSequenceSpace
  bytes_eq : t.bytesInFlight = s.bytesInFlight + seg.lengthInSequenceSpace
  running_eq : t.isTimerRunning = true
  timeSpent_eq : t.timeSpent = if s.isTimerRunning then s.timeSpent else 0
  ended_eq : t.stream.isInputEnded = s.stream.isInputEnded
  error_eq : t.stream.error = s.stream.error

theorem TileStep.sent (h : TileStep s seg t) : Sent s seg t := by
  cases h with
  | syn hsyn =>
    rw [sendSYN, sendSegment_eq]
    exact ⟨rfl, rfl, rfl, rfl, rfl, rfl, rfl, rfl, rfl, rfl, rfl, rfl, rfl⟩
  | data n hn hsyn hfin hpending =>
    rw [fillStep_fst hfin, sendSegment_eq]
    exact ⟨rfl, rfl, rfl, rfl, hsyn, rfl, rfl, rfl, rfl, rfl, rfl, rfl, rfl⟩

theorem Fills.segmentsOut_eq {u : TCPSender} (h : Fills s tiles u) :
    u.segmentsOut = s.segmentsOut ++ tiles.map OrderedSegment.seg := by
  induction h with
  | refl s => simp
  | cons hstep _ ih => simp [ih, hstep.sent.segmentsOut_eq]

/-- What filling the window leaves alone. -/
structure Steady (s u : TCPSender) : Prop where
  isn_eq : u.isn = s.isn
  checkpoint_eq : u.checkpoint = s.checkpoint
  rwnd_eq : u.rwnd = s.rwnd
  timeout_eq : u.initialRetransmissionTimeout = s.initialRetransmissionTimeout
  ended_eq : u.stream.isInputEnded = s.stream.isInputEnded
  error_eq : u.stream.error = s.stream.error

theorem Fills.frame {u : TCPSender} (h : Fills s tiles u) : Steady s u := by
  induction h with
  | refl s => exact ⟨rfl, rfl, rfl, rfl, rfl, rfl⟩
  | cons hstep _ ih =>
    have hs := hstep.sent
    exact ⟨ih.isn_eq.trans hs.isn_eq, ih.checkpoint_eq.trans hs.checkpoint_eq,
      ih.rwnd_eq.trans hs.rwnd_eq, ih.timeout_eq.trans hs.timeout_eq,
      ih.ended_eq.trans hs.ended_eq, ih.error_eq.trans hs.error_eq⟩

end Frame

section Cut
variable {s : TCPSender} {n : ℕ}

theorem payloadSize_le (n : ℕ) : payloadSize n ≤ n ∧ payloadSize n ≤ maxPayloadSize := by
  rw [payloadSize]
  split <;> omega

theorem payloadSize_pos (hn : n ≠ 0) : 0 < payloadSize n := by
  rw [payloadSize, maxPayloadSize]
  split <;> omega

theorem cut_contents (h : s.stream.Wf) :
    (s.cut n).1 ++ (s.cut n).2.contents = s.stream.contents := by
  rw [cut, ByteStream.read_fst, h.contents_read, List.take_append_drop]

theorem cut_wf (h : s.stream.Wf) : (s.cut n).2.Wf := h.popOutput (s.stream.readLen_le _)

theorem cut_length (h : s.stream.Wf) :
    (s.cut n).1.length = min (payloadSize n) s.stream.endOfBuffer := by
  rw [cut, ByteStream.read_fst, List.length_take, h.length_contents]

theorem cut_eof_iff (h : s.stream.Wf) :
    (s.cut n).2.eof = true ↔
      s.stream.isInputEnded = true ∧ s.stream.endOfBuffer ≤ payloadSize n := by
  have hend : (s.cut n).2.endOfBuffer = s.stream.endOfBuffer - s.stream.readLen (payloadSize n) :=
    h.endOfBuffer_popOutput (s.stream.readLen_le _)
  have hflag : (s.cut n).2.isInputEnded = s.stream.isInputEnded := rfl
  rw [ByteStream.eof, ByteStream.bufferEmpty, Bool.and_eq_true, beq_iff_eq, hflag, hend,
    ByteStream.readLen_eq]
  refine and_congr_right fun _ => ?_
  omega

theorem tile_length (s : TCPSender) (n : ℕ) :
    (s.tile n).lengthInSequenceSpace = (s.cut n).1.length + (if s.cutFin n then 1 else 0) := rfl

/-- A turn of the loop never sends more than the remaining window. -/
theorem tile_length_le (h : s.stream.Wf) : (s.tile n).lengthInSequenceSpace ≤ n := by
  have hlen := cut_length (n := n) h
  have hsize := (payloadSize_le n).1
  rw [tile_length]
  split
  · next hc =>
    simp only [cutFin, Bool.and_eq_true, decide_eq_true_eq] at hc
    omega
  · omega

/-- A turn of the loop always sends something. -/
theorem tile_length_pos (h : s.stream.Wf) (hn : n ≠ 0) (hp : s.hasPending = true) :
    0 < (s.tile n).lengthInSequenceSpace := by
  have hlen := cut_length (n := n) h
  have hsize := payloadSize_pos hn
  rw [tile_length]
  by_cases hz : s.stream.endOfBuffer = 0
  · have heof : s.stream.isInputEnded = true := by
      simpa [hasPending, ByteStream.eof, ByteStream.bufferEmpty, hz] using hp
    have hcut : s.cutFin n = true := by
      rw [cutFin, Bool.and_eq_true, decide_eq_true_eq]
      exact ⟨(cut_eof_iff h).mpr ⟨heof, by omega⟩, by omega⟩
    rw [if_pos hcut]
    omega
  · omega

theorem cutFin_drained (hc : s.cutFin n = true) :
    s.stream.isInputEnded = true ∧ (s.cut n).2.contents = [] := by
  rw [cutFin, Bool.and_eq_true] at hc
  have hend := hc.1
  rw [ByteStream.eof, Bool.and_eq_true, ByteStream.bufferEmpty, beq_iff_eq] at hend
  refine ⟨hend.1, ?_⟩
  rw [ByteStream.contents, hend.2, List.take_zero]

end Cut

section Loop
variable {s : TCPSender}

theorem fillStep_fin (hfin : s.fin = false) (n : ℕ) : (s.fillStep n).1.fin = s.cutFin n := by
  rw [fillStep_fst hfin, sendSegment_eq]

theorem fillStep_stream (hfin : s.fin = false) (n : ℕ) :
    (s.fillStep n).1.stream = (s.cut n).2 := by
  rw [fillStep_fst hfin, sendSegment_eq]

/-- A turn of the loop on the sender and `n_bytes_can_send`. -/
def turn (p : TCPSender × ℕ) : TCPSender × ℕ := p.1.fillStep p.2

/-- The loop makes another turn. -/
def Looping (p : TCPSender × ℕ) : Prop := p.2 ≠ 0 ∧ p.1.fin = false ∧ p.1.hasPending = true

/-- Each turn takes a byte from the stream or sends the FIN. -/
def turnsLeft (p : TCPSender × ℕ) : ℕ := if p.1.fin then 0 else p.1.stream.bufferSize + 1

theorem fillLoop_of_looping {n : ℕ} (h : Looping (s, n)) (fuel : ℕ) :
    fillLoop (fuel + 1) s n = fillLoop fuel (turn (s, n)).1 (turn (s, n)).2 := by
  obtain ⟨hn, hfin, hpending⟩ : n ≠ 0 ∧ s.fin = false ∧ s.hasPending = true := h
  rw [fillLoop, if_neg (by simp [hn, hfin]), if_pos hpending]
  rfl

theorem fillLoop_of_not_looping {n : ℕ} (h : ¬ Looping (s, n)) (fuel : ℕ) :
    fillLoop fuel s n = s := by
  cases fuel with
  | zero => rfl
  | succ fuel =>
    rw [fillLoop]
    by_cases hexit : n = 0 ∨ s.fin = true
    · exact if_pos hexit
    · rw [if_neg hexit]
      simp only [not_or, Bool.not_eq_true] at hexit
      exact if_neg fun hp => h ⟨hexit.1, hexit.2, hp⟩

theorem fillLoop_of_fin (fuel n : ℕ) (hfin : s.fin = true) : fillLoop fuel s n = s :=
  fillLoop_of_not_looping (fun h => Bool.false_ne_true (h.2.1.symm.trans hfin)) fuel

theorem fillWindow_of_not_looping (hsyn : s.syn = true)
    (h : ¬ Looping (s, s.remainingWindow)) : s.fillWindow = s :=
  (fillWindow_eq hsyn).trans (fillLoop_of_not_looping h _)

/-- A call that has something to send sends a first tile and goes on from there. -/
theorem fillWindow_of_looping (hsyn : s.syn = true) (h : Looping (s, s.remainingWindow)) :
    ∃ t, TileStep s (s.tile s.remainingWindow) t ∧ ∃ tiles, Fills t tiles s.fillWindow := by
  have hstep := TileStep.data s.remainingWindow h.1 hsyn h.2.1 h.2.2
  refine ⟨_, hstep, ?_⟩
  rw [fillWindow_eq hsyn, fillLoop_of_looping h]
  exact fillLoop_fills _ _ _ hstep.sent.syn_eq

/-- With fuel for its turns the loop ends where the turns lead. -/
theorem fillLoop_of_exits {k fuel n : ℕ} (h : Exits Looping turn k (s, n)) (hk : k ≤ fuel) :
    fillLoop fuel s n = (turn^[k] (s, n)).1 := by
  induction k generalizing s n fuel with
  | zero => exact fillLoop_of_not_looping h.done fuel
  | succ k ih =>
    obtain ⟨fuel, rfl⟩ := Nat.exists_eq_add_of_lt hk
    rw [fillLoop_of_looping (h.guarded 0 (Nat.succ_pos k))]
    exact ih h.tail (by omega)

theorem turn_wf (p : TCPSender × ℕ) (hp : Looping p) (h : p.1.stream.Wf) :
    (turn p).1.stream.Wf := by
  rw [turn, fillStep_stream hp.2.1]
  exact cut_wf h

theorem turnsLeft_turn (p : TCPSender × ℕ) (hp : Looping p) (h : p.1.stream.Wf) :
    turnsLeft (turn p) < turnsLeft p := by
  obtain ⟨s, n⟩ := p
  obtain ⟨hn, hfin, hpending⟩ : n ≠ 0 ∧ s.fin = false ∧ s.hasPending = true := hp
  have hleft : turnsLeft (s, n) = s.stream.bufferSize + 1 := if_neg (by simp [hfin])
  have hfin' : (turn (s, n)).1.fin = s.cutFin n := fillStep_fin hfin n
  have hstream : (turn (s, n)).1.stream = (s.cut n).2 := fillStep_stream hfin n
  rw [hleft, turnsLeft, hfin', hstream]
  cases hcut : s.cutFin n with
  | true => exact Nat.succ_pos _
  | false =>
    have hpos := tile_length_pos h hn hpending
    rw [tile_length, hcut, cut_length h] at hpos
    have hend : (s.cut n).2.endOfBuffer =
        s.stream.endOfBuffer - s.stream.readLen (payloadSize n) :=
      h.endOfBuffer_popOutput (s.stream.readLen_le _)
    rw [s.stream.readLen_eq] at hend
    simp only [Bool.false_eq_true, if_false, ByteStream.bufferSize, hend] at hpos ⊢
    omega

/-- The loop leaves off, after at most one turn more than there are bytes. -/
theorem exists_turns (h : s.stream.Wf) (n : ℕ) :
    ∃ k ≤ s.stream.bufferSize + 1, Exits Looping turn k (s, n) := by
  obtain ⟨k, hk, hexits⟩ := exists_exits turn_wf turnsLeft turnsLeft_turn (a := (s, n)) h
  refine ⟨k, hk.trans ?_, hexits⟩
  rw [turnsLeft]
  split
  · exact Nat.zero_le _
  · exact le_refl _

end Loop

/-- The stream stays well formed and every tile takes up sequence space. -/
theorem TileStep.wf {s t : TCPSender} {seg : TCPSegment} (hstep : TileStep s seg t)
    (h : s.stream.Wf) : t.stream.Wf ∧ 0 < seg.lengthInSequenceSpace := by
  cases hstep with
  | syn hsyn =>
    rw [sendSYN, sendSegment_eq]
    exact ⟨h, Nat.one_pos⟩
  | data n hn hsyn hfin hpending =>
    rw [fillStep_fst hfin, sendSegment_eq]
    exact ⟨cut_wf h, tile_length_pos h hn hpending⟩

end TCPSender
end Sponge
