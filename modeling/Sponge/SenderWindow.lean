import Sponge.SenderInvariant

/-!
# The sender and the receiver's window

The remaining window is an unsigned difference: it is right while the window
covers what is in flight, and wraps to a huge number when it does not.
-/
namespace Sponge
open MachineWords
namespace TCPSender

section Overrun
variable {s : TCPSender}

/-- While the remaining window has not wrapped, the loop stays inside it. -/
theorem fillLoop_nextSeqno_le (fuel : ℕ) (s : TCPSender) (n : ℕ) (h : s.stream.Wf)
    (hn : n < 2 ^ 64) : (fillLoop fuel s n).nextSeqno ≤ s.nextSeqno + n := by
  induction fuel generalizing s n with
  | zero => exact Nat.le_add_right _ _
  | succ fuel ih =>
    rw [fillLoop]
    by_cases hexit : n = 0 ∨ s.fin = true
    · rw [if_pos hexit]
      exact Nat.le_add_right _ _
    · rw [if_neg hexit]
      simp only [not_or, Bool.not_eq_true] at hexit
      cases hp : s.hasPending with
      | false => exact Nat.le_add_right _ _
      | true =>
        have hlen := tile_length_le (n := n) h
        have hnext : (s.fillStep n).1.nextSeqno =
            s.nextSeqno + (s.tile n).lengthInSequenceSpace := by
          rw [fillStep_fst hexit.2, sendSegment_eq]
        cases hcut : s.cutFin n with
        | true =>
          have hfin : (s.fillStep n).1.fin = true := (fillStep_fin hexit.2 n).trans hcut
          rw [if_pos rfl, fillLoop_of_fin _ _ hfin]
          omega
        | false =>
          have hsize := (payloadSize_le n).1
          have hcutlen := cut_length (n := n) h
          have hrest : (s.fillStep n).2 = n - payloadSize n := by
            rw [fillStep_snd, hcut]
            exact subMod_of_le hsize hn
          have hwf : (s.fillStep n).1.stream.Wf := by
            rw [fillStep_stream hexit.2]
            exact cut_wf h
          have htile : (s.tile n).lengthInSequenceSpace = (s.cut n).1.length := by
            rw [tile_length, hcut]
            rfl
          have hih := ih (s.fillStep n).1 (s.fillStep n).2 hwf (by omega)
          rw [if_pos rfl]
          omega

/-- A call that sends something respects the window exactly when the window covered what was
in flight before it. -/
theorem Sound.overrun_iff (h : Sound s) (hsend : s.fillWindow.segmentsOut ≠ s.segmentsOut) :
    s.fillWindow.nextSeqno ≤ s.fillWindow.checkpoint + max s.fillWindow.rwnd 1 ↔
      s.nextSeqno - s.checkpoint ≤ max s.rwnd 1 := by
  obtain ⟨tiles, hfills⟩ := s.fillWindow_fills
  obtain ⟨-, hcp, hrwnd, -⟩ := hfills.frame
  obtain ⟨start, hout⟩ := h.outstanding
  have hle := hout.checkpoint_le
  have hw := h.rwnd_lt
  have hne : tiles ≠ [] := by
    rintro rfl
    exact hsend (by rw [hfills.segmentsOut_eq]; simp)
  have hgrow : s.nextSeqno < s.fillWindow.nextSeqno := by
    have htiles := hfills.tiles h
    have := htiles.le
    have := mt htiles.eq_nil_iff.mpr hne
    omega
  rw [hcp, hrwnd]
  constructor
  · intro hfit
    omega
  · intro hcover
    cases hsyn : s.syn with
    | false =>
      have hzero := h.unsent hsyn
      have hone : s.fillWindow.nextSeqno = 1 := by
        simp [fillWindow_of_not_syn hsyn, sendSYN, sendSegment_eq, hzero,
          TCPSegment.lengthInSequenceSpace]
      omega
    | true =>
      have hwin : s.remainingWindow = max s.rwnd 1 - (s.nextSeqno - s.checkpoint) := by
        have hmax : (if 0 < s.rwnd then s.rwnd else 1) = max s.rwnd 1 := by split <;> omega
        rw [remainingWindow, hmax]
        exact subMod_of_le hcover (by omega)
      have hloop := fillLoop_nextSeqno_le (s.stream.bufferSize + 1) s s.remainingWindow
        h.stream_wf (by omega)
      rw [fillWindow_eq hsyn]
      omega

end Overrun

/-- The window in force when the operation fills it covers what is in flight by then. -/
def WindowCovers (s : TCPSender) : Op → Prop
  | .fillWindow => s.nextSeqno - s.checkpoint ≤ max s.rwnd 1
  | .ackReceived ackno windowSize =>
    s.nextSeqno - unwrap ackno s.isn s.checkpoint ≤ max windowSize.toNat 1
  | _ => True

/-- After an operation of a run that sent new tiles, the sender is inside the window exactly
when the window covered what was in flight before. -/
theorem window_respected_iff {capacity : ℕ} {retxTimeout : UInt16}
    {fixedIsn : Option WrappingInt32} {random : WrappingInt32} {s₀ : TCPSender}
    (hnew : new capacity retxTimeout fixedIsn random = some s₀) (ops : List Op) (op : Op)
    (hsend : (machine.run s₀ ops).newTiles op ≠ []) :
    let s := machine.run s₀ ops
    let s' := machine.run s₀ (ops ++ [op])
    s'.nextSeqno ≤ s'.checkpoint + max s'.rwnd 1 ↔ WindowCovers s op := by
  have h := (sound_new hnew).run ops
  simp only [Machine.run_snoc]
  generalize machine.run s₀ ops = s at h hsend ⊢
  cases op with
  | fillWindow =>
    apply h.overrun_iff
    intro heq
    apply hsend
    change s.fillWindow.segmentsOut.drop s.segmentsOut.length = []
    rw [heq, List.drop_length]
  | ackReceived ackno windowSize =>
    have hdrop : (s.ackReceived ackno windowSize).segmentsOut.drop s.segmentsOut.length ≠ [] := hsend
    change (s.ackReceived ackno windowSize).nextSeqno ≤
      (s.ackReceived ackno windowSize).checkpoint +
        max (s.ackReceived ackno windowSize).rwnd 1 ↔ _
    rcases s.ackReceived_cases ackno windowSize with ⟨heq, -⟩ | ⟨heq, hlo, hhi⟩
    · rw [heq] at hdrop
      exact absurd List.drop_length hdrop
    · have hack := (h.rwnd_congr windowSize).acknowledge hlo hhi
      rw [heq] at hdrop ⊢
      refine (hack.overrun_iff ?_).trans ?_
      · intro hsame
        rw [hsame, acknowledge_eq] at hdrop
        exact hdrop List.drop_length
      · rw [acknowledge_eq]
        rfl
  | write data => exact absurd rfl hsend
  | endInput => exact absurd rfl hsend
  | tick ms => exact absurd rfl hsend
  | sendEmptySegment => exact absurd rfl hsend

theorem window_respected_iff_open :
    ∃ s₀, new 8 1000 (some ⟨5⟩) ⟨0⟩ = some s₀ ∧
      let ops := [.fillWindow, .ackReceived ⟨6⟩ 3, .write [1, 2, 3, 4]]
      (machine.run s₀ ops).newTiles .fillWindow ≠ [] ∧
      let s' := machine.run s₀ (ops ++ [.fillWindow])
      (s'.nextSeqno ≤ s'.checkpoint + max s'.rwnd 1 ↔
        WindowCovers (machine.run s₀ ops) .fillWindow) :=
  ⟨_, rfl, by decide, window_respected_iff
    (show new 8 1000 (some ⟨5⟩) ⟨0⟩ = some _ from rfl) _ _ (by decide)⟩

/-- A run in which the receiver's window shrinks below what is in flight. -/
def shrinkingWindow : List Op :=
  [.fillWindow, .ackReceived ⟨6⟩ 3, .write [1, 2, 3, 4, 5, 6], .fillWindow, .ackReceived ⟨6⟩ 1]

/-- With a window of one byte and three in flight the next call sends three more. -/
theorem window_overrun_after_shrinking :
    ∃ s₀, new 8 1000 (some ⟨5⟩) ⟨0⟩ = some s₀ ∧
      (machine.run s₀ shrinkingWindow).newTiles .fillWindow ≠ [] ∧
      let s' := machine.run s₀ (shrinkingWindow ++ [.fillWindow])
      s'.nextSeqno = 7 ∧ s'.checkpoint = 1 ∧ s'.rwnd = 1 ∧
        ¬ s'.nextSeqno ≤ s'.checkpoint + max s'.rwnd 1 :=
  ⟨_, rfl, by decide, by decide⟩

end TCPSender
end Sponge
