import Sponge.SenderInvariant

/-!
# What a call of `fill_window` achieves

The loop keeps `n_bytes_can_send` equal to the remaining window, modulo `2 ^ 64`, until a turn finds
fewer bytes than it asked for; then there is nothing left to send. It makes no difference whether
the window was overrun before the call.
-/
namespace Sponge
open MachineWords
namespace TCPSender

/-- The stream is empty, and the FIN is sent if the input has ended. -/
def NothingLeft (s : TCPSender) : Prop :=
  s.stream.bufferEmpty = true ∧ (s.stream.isInputEnded = true → s.fin = true)

theorem NothingLeft.not_looping {s : TCPSender} (h : s.NothingLeft) (n : ℕ) :
    ¬ Looping (s, n) := by
  rintro ⟨-, hfin, hpending⟩
  obtain ⟨hempty, hended⟩ := h
  simp [hasPending, ByteStream.eof, hempty] at hpending
  simp [hended hpending] at hfin

theorem nothingLeft_of_not_pending {s : TCPSender} (h : ¬ s.hasPending = true) :
    s.NothingLeft := by
  simp only [hasPending, ByteStream.eof, Bool.or_eq_true, Bool.and_eq_true, Bool.not_eq_true',
    not_or, Bool.not_eq_false] at h
  exact ⟨h.2, fun hended => absurd ⟨hended, h.2⟩ h.1⟩

section Turn
variable {s : TCPSender} {n : ℕ}

/-- A turn that reads less than it asked for leaves nothing. -/
theorem nothingLeft_of_short (h : s.stream.Wf) (hfin : s.fin = false)
    (hshort : s.stream.endOfBuffer < payloadSize n) : (s.fillStep n).1.NothingLeft := by
  have hlen := cut_length (n := n) h
  have hsize := (payloadSize_le n).1
  have hempty : (s.cut n).2.contents = [] := by
    rw [cut, h.contents_read]
    exact List.drop_of_length_le (by rw [h.length_contents]; omega)
  rw [NothingLeft, fillStep_stream hfin, fillStep_fin hfin]
  refine ⟨(cut_wf h).bufferEmpty_iff.mpr hempty, fun hended => ?_⟩
  rw [cutFin, Bool.and_eq_true, decide_eq_true_eq]
  exact ⟨(cut_eof_iff h).mpr ⟨hended, hshort.le⟩, by omega⟩

theorem nothingLeft_of_cutFin (h : s.stream.Wf) (hfin : s.fin = false)
    (hcut : s.cutFin n = true) : (s.fillStep n).1.NothingLeft := by
  rw [NothingLeft, fillStep_stream hfin, fillStep_fin hfin]
  exact ⟨(cut_wf h).bufferEmpty_iff.mpr (cutFin_drained hcut).2, fun _ => hcut⟩

/-- A turn that reads what it asked for and sends no FIN moves the window along. -/
theorem remainingWindow_fillStep (h : s.stream.Wf) (hcp : s.checkpoint ≤ s.nextSeqno)
    (hfin : s.fin = false) (hcut : s.cutFin n = false)
    (hfull : payloadSize n ≤ s.stream.endOfBuffer) (hn : n = s.remainingWindow) :
    (s.fillStep n).2 = (s.fillStep n).1.remainingWindow := by
  have hlen : (s.tile n).lengthInSequenceSpace = payloadSize n := by
    rw [tile_length, hcut, cut_length h, Nat.min_eq_left hfull]
    rfl
  have hflight : s.nextSeqno + payloadSize n - s.checkpoint =
      s.nextSeqno - s.checkpoint + payloadSize n := by omega
  rw [fillStep_snd, hcut, fillStep_fst hfin, sendSegment_eq, hlen]
  simp only [Bool.false_eq_true, if_false, remainingWindow]
  rw [hflight, ← subMod_subMod, hn]
  rfl

end Turn

/-- What each turn of the loop keeps. -/
structure Filling (p : TCPSender × ℕ) : Prop where
  sound : Sound p.1
  syn : p.1.syn = true
  finished : p.1.Finished
  window : p.2 = p.1.remainingWindow ∨ p.1.NothingLeft

theorem Filling.turn (p : TCPSender × ℕ) (hp : Looping p) (h : Filling p) : Filling (turn p) := by
  obtain ⟨s, n⟩ := p
  obtain ⟨hn, hfin, hpending⟩ : n ≠ 0 ∧ s.fin = false ∧ s.hasPending = true := hp
  have hwf : s.stream.Wf := h.sound.stream_wf
  obtain ⟨start, hout⟩ := h.sound.outstanding
  have hstep : TileStep s (s.tile n) (s.fillStep n).1 := .data n hn h.syn hfin hpending
  refine ⟨h.sound.send hstep, hstep.sent.syn_eq, h.finished.send hstep, ?_⟩
  cases hcut : s.cutFin n with
  | true => exact Or.inr (nothingLeft_of_cutFin hwf hfin hcut)
  | false =>
    by_cases hshort : s.stream.endOfBuffer < payloadSize n
    · exact Or.inr (nothingLeft_of_short hwf hfin hshort)
    · rcases h.window with hwindow | hnothing
      · exact Or.inl (remainingWindow_fillStep hwf hout.checkpoint_le hfin hcut
          (Nat.le_of_not_lt hshort) hwindow)
      · exact absurd ⟨hn, hfin, hpending⟩ (hnothing.not_looping n)

theorem Filling.done {p : TCPSender × ℕ} (h : Filling p) (hp : ¬ Looping p) :
    p.1.NothingLeft ∨ p.1.remainingWindow = 0 := by
  obtain ⟨s, n⟩ := p
  rcases h.window with hwindow | hnothing
  · by_cases hn : n = 0
    · exact Or.inr (hwindow.symm.trans hn)
    · refine Or.inl ?_
      cases hfin : s.fin with
      | true =>
        obtain ⟨-, hempty⟩ := h.finished hfin
        exact ⟨h.sound.stream_wf.bufferEmpty_iff.mpr hempty, fun _ => hfin⟩
      | false =>
        exact nothingLeft_of_not_pending fun hpending => hp ⟨hn, hfin, hpending⟩
  · exact Or.inl hnothing

section Call
variable {s : TCPSender}

/-- A call ends with nothing left to send or no window left. -/
theorem fillWindow_done (h : Sound s) (hfinished : s.Finished) (hsyn : s.syn = true) :
    s.fillWindow.NothingLeft ∨ s.fillWindow.remainingWindow = 0 := by
  obtain ⟨k, hk, hexits⟩ := exists_turns h.stream_wf s.remainingWindow
  rw [fillWindow_eq hsyn, fillLoop_of_exits hexits hk]
  have hfilling : Filling (s, s.remainingWindow) := ⟨h, hsyn, hfinished, Or.inl rfl⟩
  exact (hexits.invariant Filling.turn hfilling).done hexits.done

/-- A call with nothing to send or no window left does nothing. -/
theorem fillWindow_of_done (hsyn : s.syn = true)
    (hdone : s.NothingLeft ∨ s.remainingWindow = 0) : s.fillWindow = s := by
  apply fillWindow_of_not_looping hsyn
  rcases hdone with hnothing | hwindow
  · exact hnothing.not_looping _
  · rintro ⟨hn, -, -⟩
    exact hn hwindow

/-- No window is left when at least as much is in flight. -/
theorem window_full (h : Sound s) (hwindow : s.remainingWindow = 0) :
    max s.rwnd 1 ≤ s.nextSeqno - s.checkpoint := by
  have hlt := h.rwnd_lt
  have hmax : (if 0 < s.rwnd then s.rwnd else 1) = max s.rwnd 1 := by split <;> omega
  rw [remainingWindow, hmax, subMod] at hwindow
  omega

/-- The last tile of a call reaches up to the next sequence number and carries the FIN if the
sender has sent it. -/
theorem Fills.last {t : TCPSender} {front : List OrderedSegment} {u : OrderedSegment}
    (hfills : Fills s (front ++ [u]) t) (hsyn : s.syn = true) :
    u.seg.header.fin = t.fin ∧
      t.nextSeqno = u.absSeqno + u.seg.payload.length + (if t.fin then 1 else 0) := by
  induction front generalizing s with
  | nil =>
    cases hfills with
    | cons hstep hrest =>
      cases hrest
      cases hstep with
      | syn hnot => simp [hsyn] at hnot
      | data n hn _ hfin hpending =>
        rw [fillStep_fin hfin]
        refine ⟨rfl, ?_⟩
        rw [fillStep_fst hfin, sendSegment_eq, tile_length, ← Nat.add_assoc]
        rfl
  | cons v front ih =>
    cases hfills with
    | cons hstep hrest => exact ih hrest hstep.sent.syn_eq

end Call

/-- The program writes to the stream only before it has ended it. -/
def WritesOpen (s : TCPSender) : Op → Prop
  | .write _ => s.stream.isInputEnded = false
  | _ => True

instance (s : TCPSender) (op : Op) : Decidable (s.WritesOpen op) := by
  cases op <;> simp only [WritesOpen] <;> infer_instance

theorem Finished.step {s : TCPSender} {op : Op} (h : s.Finished) (hwf : s.stream.Wf)
    (hop : s.WritesOpen op) : (s.step op).Finished := by
  cases op with
  | write data =>
    refine h.writeStream hwf fun hfin => ?_
    have hopen : s.stream.isInputEnded = false := hop
    simp [(h hfin).1] at hopen
  | endInput => exact fun hfin => ⟨rfl, (h hfin).2⟩
  | fillWindow => exact h.fillWindow
  | ackReceived ackno windowSize => exact h.ackReceived ackno windowSize
  | tick ms =>
    rw [TCPSender.step, tick_eq]
    exact h
  | sendEmptySegment => exact h

section Run
variable {capacity : ℕ} {retxTimeout : UInt16} {fixedIsn : Option WrappingInt32}
  {random : WrappingInt32} {s₀ : TCPSender} {ops : List Op}

theorem finished_run (hnew : new capacity retxTimeout fixedIsn random = some s₀)
    (hops : (machine.restrict WritesOpen).Admits s₀ ops) : (machine.run s₀ ops).Finished := by
  refine Machine.run_induction _ (P := fun ops => (machine.run s₀ ops).Finished)
    (finished_new hnew) ?_ hops
  intro past op _ hop hpast
  rw [Machine.run_snoc]
  exact hpast.step ((sound_new hnew).run past).stream_wf hop.2

/-- `fill_window` terminates, sends all it can and has nothing more to send when called again. -/
theorem fillWindow_maximal (hnew : new capacity retxTimeout fixedIsn random = some s₀)
    (hops : (machine.restrict WritesOpen).Admits s₀ ops)
    (hsyn : (machine.run s₀ ops).syn = true) :
    let s := machine.run s₀ ops
    let t := s.fillWindow
    (∃ k ≤ s.stream.bufferSize + 1, Exits Looping turn k (s, s.remainingWindow) ∧
      t = (turn^[k] (s, s.remainingWindow)).1) ∧
    (t.NothingLeft ∨ max t.rwnd 1 ≤ t.nextSeqno - t.checkpoint) ∧
    (∃ tiles, t.segmentsOut = s.segmentsOut ++ tiles.map OrderedSegment.seg ∧
      Tiles OrderedSegment.absSeqno OrderedSegment.length s.nextSeqno tiles t.nextSeqno ∧
      ∀ front u, tiles = front ++ [u] → s.stream.isInputEnded = true →
        t.stream.bufferEmpty = true →
        u.absSeqno + u.seg.payload.length + 1 ≤ t.checkpoint + max t.rwnd 1 →
        u.seg.header.fin = true) ∧
    t.fillWindow = t := by
  intro s t
  have hsound : Sound s := (sound_new hnew).run ops
  have hdone := fillWindow_done hsound (finished_run hnew hops) hsyn
  obtain ⟨tiles, hfills⟩ := s.fillWindow_fills
  have hsent : t.syn = true := hfills.induct (fun _ _ _ hstep _ => hstep.sent.syn_eq) hsyn
  have hmaximal : t.NothingLeft ∨ max t.rwnd 1 ≤ t.nextSeqno - t.checkpoint :=
    hdone.imp_right (window_full hsound.fillWindow)
  refine ⟨?_, hmaximal, ⟨tiles, hfills.segmentsOut_eq, hfills.tiles hsound, ?_⟩,
    fillWindow_of_done hsent hdone⟩
  · obtain ⟨k, hk, hexits⟩ := exists_turns hsound.stream_wf s.remainingWindow
    exact ⟨k, hk, hexits, (fillWindow_eq hsyn).trans (fillLoop_of_exits hexits hk)⟩
  · rintro front u rfl hended hempty hfits
    obtain ⟨hfin, hnext⟩ := hfills.last hsyn
    by_contra hnot
    rw [hfin] at hnot
    rw [if_neg hnot] at hnext
    rcases hmaximal with ⟨-, hsends⟩ | hfull
    · exact hnot (hsends (hfills.frame.ended_eq.trans hended))
    · have hend : t.nextSeqno = u.absSeqno + u.seg.payload.length := hnext
      omega

theorem fillWindow_maximal_last_byte :
    ∃ s₀, new 8 1000 (some ⟨5⟩) ⟨0⟩ = some s₀ ∧
      let ops : List Op := [.fillWindow, .ackReceived ⟨6⟩ 4, .write [1, 2, 3], .endInput]
      (machine.restrict WritesOpen).Admits s₀ ops ∧ (machine.run s₀ ops).syn = true ∧
      (machine.run s₀ ops).fillWindow.fillWindow = (machine.run s₀ ops).fillWindow := by
  obtain ⟨s₀, hnew, hops, hsyn⟩ : ∃ s₀, new 8 1000 (some ⟨5⟩) ⟨0⟩ = some s₀ ∧
      (machine.restrict WritesOpen).Admits s₀
        [.fillWindow, .ackReceived ⟨6⟩ 4, .write [1, 2, 3], .endInput] ∧
      (machine.run s₀ [.fillWindow, .ackReceived ⟨6⟩ 4, .write [1, 2, 3], .endInput]).syn = true :=
    ⟨_, rfl, by decide +kernel, by decide +kernel⟩
  exact ⟨s₀, hnew, hops, hsyn, (fillWindow_maximal hnew hops hsyn).2.2.2⟩

end Run
end TCPSender
end Sponge
