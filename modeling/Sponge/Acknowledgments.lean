import Sponge.Network

/-!
# Acknowledgments between two endpoints

An acknowledgment may be delayed forever, but it never runs ahead of what its
sender had written when it left, and what is written stays written. `Acked`
bounds all acknowledgments on the way, and the checkpoint they lead to, by a
limit that only grows.
-/
namespace Sponge
open TCPSender TCPConnection TCPSegment

namespace TCPConnection
variable {c : TCPConnection} {op : Op}

theorem step_ackno (c : TCPConnection) (op : Op) :
    (c.step op).receiver.ackno = (c.prelude op).receiver.ackno := by
  refine step_receiver (I := fun v => v.ackno = (c.prelude op).receiver.ackno) ?_ rfl
  intro v hv
  exact hv

/-- Only an acknowledgment moves the checkpoint. -/
theorem step_checkpoint (c : TCPConnection) (op : Op) :
    (c.step op).sender.checkpoint = c.sender.checkpoint ∨
    ∃ seg, op = .segmentReceived seg ∧ seg.header.ack = true ∧
      (c.step op).sender.checkpoint =
        unwrap seg.header.ackno c.sender.isn c.sender.checkpoint := by
  have hmoves : (c.step op).sender.checkpoint = (c.prelude op).sender.checkpoint := by
    refine step_induct (I := fun d => d.sender.checkpoint = (c.prelude op).sender.checkpoint) ?_ rfl
    intro d e hmove hd
    cases hmove with
    | send setRst =>
      obtain ⟨tiles, hfills⟩ := d.sender.fillWindow_fills
      rw [(d.sendSegments_eq setRst).1]
      exact hfills.frame.checkpoint_eq.trans hd
    | kill => exact hd
    | empty => exact hd
  rw [hmoves]
  cases op with
  | segmentReceived seg =>
    rcases c.prelude_segmentReceived seg with ⟨-, heq⟩ | ⟨-, heq⟩
    · rw [heq]
      exact Or.inl rfl
    · rw [heq, takeIn_sender]
      split
      · next hack =>
        rcases c.sender.ackReceived_cases seg.header.ackno seg.header.win with
          ⟨heq, -⟩ | ⟨heq, -⟩
        · left
          rw [heq]
        · refine Or.inr ⟨seg, rfl, hack, ?_⟩
          obtain ⟨tiles, hfills⟩ := ({ c.sender with rwnd := seg.header.win.toNat }.acknowledge
            (unwrap seg.header.ackno c.sender.isn c.sender.checkpoint)).fillWindow_fills
          rw [heq, hfills.frame.checkpoint_eq, acknowledge_eq]
      · exact Or.inl rfl
  | tick ms =>
    left
    change (c.sender.tick ms).checkpoint = _
    rw [tick_eq]
  | write data => exact Or.inl rfl
  | endInputStream => exact Or.inl rfl
  | connect => exact Or.inl rfl
  | read len => exact Or.inl rfl
  | pop len => exact Or.inl rfl

theorem finished_step (h : c.sender.Finished) (hwf : c.sender.stream.Wf)
    (hwrite : ∀ data, op = .write data → c.sender.fin = true →
      c.sender.stream.writeSize data = 0) : (c.step op).sender.Finished := by
  refine step_induct (I := fun d => d.sender.Finished) ?_ ?_
  · intro d e hmove hd
    cases hmove with
    | send setRst =>
      rw [(d.sendSegments_eq setRst).1]
      exact hd.fillWindow
    | kill => exact hd
    | empty => exact hd
  · cases op with
    | segmentReceived seg =>
      rcases c.prelude_segmentReceived seg with ⟨-, heq⟩ | ⟨-, heq⟩
      · rw [heq]
        exact h
      · rw [heq, takeIn_sender]
        split
        · exact h.ackReceived _ _
        · exact h
    | tick ms =>
      change (c.sender.tick ms).Finished
      rw [tick_eq]
      exact h
    | write data => exact h.writeStream hwf (hwrite data rfl)
    | endInputStream =>
      intro hfin
      exact ⟨rfl, (h hfin).2⟩
    | connect => exact h
    | read len => exact h
    | pop len => exact h

theorem receiver_mono {isn : WrappingInt32} {S taken : List Byte}
    (h : TCPReceiver.Agrees isn S taken c.receiver) (hS : S.length < 2 ^ 31 - 2)
    (hfair : Fair isn S c op) :
    c.inboundStream.bytesWritten ≤ (c.step op).inboundStream.bytesWritten ∧
      (c.inboundStream.inputEnded = true → (c.step op).inboundStream.inputEnded = true) := by
  refine step_receiver (I := fun v => c.inboundStream.bytesWritten ≤ v.streamOut.bytesWritten ∧
    (c.inboundStream.inputEnded = true → v.streamOut.inputEnded = true)) ?_ ?_
  · intro v hv
    exact hv
  · cases op with
    | segmentReceived seg =>
      rcases c.prelude_receiver seg with ⟨-, heq⟩ | ⟨-, heq⟩
      · rw [heq]
        exact ⟨le_refl _, id⟩
      · rw [heq]
        refine h.segmentReceived_mono hS (hfair.imp_right ?_)
        intro hblank
        exact ⟨hblank.payload_eq, hblank.syn_eq, hblank.fin_eq⟩
    | _ => exact ⟨le_refl _, id⟩

end TCPConnection

namespace Network

/-- Acknowledgments from `y` to `x` stay within the limit, and so does the checkpoint. -/
structure Acked (limit : ℕ) (W W' taken : List Byte) (tiles tiles' : List OrderedSegment)
    (x y : TCPConnection) : Prop where
  channel : Channel W taken tiles x y
  peer : Drives (fun ackno => ∃ m ≤ limit, ackno = wrap m x.sender.isn) W' tiles' y
  checkpoint_le : x.sender.checkpoint ≤ limit

section Acked
variable {limit limit' : ℕ} {W W' taken : List Byte} {tiles tiles' : List OrderedSegment}
  {x y : TCPConnection} {op : TCPConnection.Op}

theorem Drives.mono {Q Q' : WrappingInt32 → Prop} (h : Drives Q W tiles x)
    (hQ : ∀ ackno, Q ackno → Q' ackno) : Drives Q' W tiles x :=
  ⟨h.sound, h.history, h.pushed, h.waiting, h.emitted,
    fun seg hseg hack => hQ _ (h.acks seg hseg hack),
    fun ackno hack => hQ _ (h.ready ackno hack), h.closed⟩

theorem Drives.mono_limit {isn : WrappingInt32}
    (h : Drives (fun ackno => ∃ m ≤ limit, ackno = wrap m isn) W tiles x) (hle : limit ≤ limit') :
    Drives (fun ackno => ∃ m ≤ limit', ackno = wrap m isn) W tiles x := by
  apply Drives.mono h
  intro ackno hack
  obtain ⟨m, hm, hackno⟩ := hack
  exact ⟨m, hm.trans hle, hackno⟩

/-- A call at the side whose stream is acknowledged. -/
theorem Acked.send (h : Acked limit W W' taken tiles tiles' x y) (hle : limit ≤ limit')
    (hlimit : limit < 2 ^ 31) (hlen : (W ++ x.accepted op).length < 2 ^ 31 - 2)
    (hseg : ∀ seg, op = .segmentReceived seg → seg ∈ y.segmentsOut) :
    ∃ more, Acked limit' (W ++ x.accepted op) W' taken (tiles ++ more) tiles' (x.step op) y ∧
      (x.sender.fin = true → more = [] ∧ (x.step op).sender.fin = true) := by
  obtain ⟨more, hmore, hfinished, hisn⟩ := h.channel.send hlen
  have hcp := h.checkpoint_le
  refine ⟨more, ⟨hmore, ?_, ?_⟩, hfinished⟩
  · rw [hisn]
    exact Drives.mono_limit h.peer hle
  · rcases x.step_checkpoint op with hsame | ⟨seg, hop, hack, hmoved⟩
    · omega
    · obtain ⟨m, hm, hackno⟩ := h.peer.acks seg (hseg seg hop) hack
      have hunwrap : unwrap (wrap m x.sender.isn) x.sender.isn x.sender.checkpoint = m :=
        unwrap_wrap x.sender.isn (by omega) (by omega) (by omega) (by omega)
      rw [hmoved, hackno, hunwrap]
      omega

/-- A call at the side that acknowledges. -/
theorem Acked.receive (h : Acked limit W W' taken tiles tiles' x y) (hle : limit ≤ limit')
    (hlen : W.length < 2 ^ 31 - 2) (hlen' : (W' ++ y.accepted op).length < 2 ^ 31 - 2)
    (hfair : Fair x.sender.isn (payloads tiles) y op)
    (hready : ∀ ackno, (y.step op).receiver.ackno = some ackno →
      ∃ m ≤ limit', ackno = wrap m x.sender.isn) :
    ∃ more, Acked limit' W (W' ++ y.accepted op) (taken ++ y.removed op) tiles (tiles' ++ more) x
      (y.step op) := by
  have hpeer := Drives.mono_limit h.peer hle
  rw [step_ackno] at hready
  obtain ⟨more, hmore⟩ := hpeer.step (fits_of_length hpeer hlen') hready
  exact ⟨more, h.channel.receive hlen hfair, hmore.drives, h.checkpoint_le.trans hle⟩

theorem ackno_bound {isn : WrappingInt32} {S : List Byte} {v : TCPReceiver}
    (h : TCPReceiver.Agrees isn S taken v) {ackno : WrappingInt32} (hack : v.ackno = some ackno) :
    ackno = wrap (1 + v.streamOut.bytesWritten + v.finBit) isn := by
  have hsyn : v.recievedSYN = true := by
    by_contra hnone
    rw [TCPReceiver.ackno, if_neg hnone] at hack
    cases hack
  rw [TCPReceiver.ackno_eq hsyn, h.isn_eq hsyn] at hack
  exact (Option.some.inj hack).symm

end Acked

section CleanClose

/-- Side `x` does not write once it has ended its input stream. -/
def NoWriteAfterEnd (x : Side) (net : Net) : Side × TCPConnection.Op → Prop
  | (z, .write _) => z = x → (net x).sender.stream.inputEnded = false
  | _ => True

instance (x : Side) (net : Net) : ∀ e, Decidable (NoWriteAfterEnd x net e)
  | (_, .write _) => inferInstanceAs (Decidable (_ → _))
  | (_, .segmentReceived _) => .isTrue trivial
  | (_, .tick _) => .isTrue trivial
  | (_, .endInputStream) => .isTrue trivial
  | (_, .connect) => .isTrue trivial
  | (_, .read _) => .isTrue trivial
  | (_, .pop _) => .isTrue trivial

/-- No acknowledgment runs more than the SYN and the FIN ahead of the bytes written. -/
structure Delivering (W W' taken : List Byte) (tiles tiles' : List OrderedSegment)
    (x y : TCPConnection) : Prop where
  acked : Acked (y.inboundStream.bytesWritten + 2) W W' taken tiles tiles' x y
  finished : x.sender.Finished

variable {W W' taken : List Byte} {tiles tiles' : List OrderedSegment} {net : Net} {x : Side}
  {e : Side × TCPConnection.Op}

theorem Acked.written_lt {limit : ℕ} {a b : TCPConnection}
    (h : Acked limit W W' taken tiles tiles' a b) (hlen : W.length < 2 ^ 31 - 2) :
    b.inboundStream.bytesWritten + 2 < 2 ^ 31 := by
  have hsent := h.channel.sent_isPrefix.length_le
  have hwritten : b.inboundStream.bytesWritten ≤ _ :=
    h.channel.agrees.represents.bytesWritten_le
  omega

theorem segment_mem_of_enabled (hen : Enabled net e) (hside : e.1 = x) (seg : TCPSegment)
    (hop : e.2 = .segmentReceived seg) : seg ∈ (net x.other).segmentsOut := by
  obtain ⟨z, op⟩ := e
  subst hside hop
  exact hen

theorem finished_of_noWrite (h : (net x).sender.Finished) (hwf : (net x).sender.stream.Wf)
    (hcond : NoWriteAfterEnd x net e) (hside : e.1 = x) :
    ((net x).step e.2).sender.Finished := by
  apply finished_step h hwf
  intro data hop hfin
  obtain ⟨z, op⟩ := e
  subst hside hop
  have hopen : (net z).sender.stream.isInputEnded = false := hcond rfl
  rw [(h hfin).1] at hopen
  cases hopen

theorem Delivering.step (h : Delivering W W' taken tiles tiles' (net x) (net x.other))
    (hen : Enabled net e) (hcond : NoWriteAfterEnd x net e)
    (hlen : (W ++ accepted x net e).length < 2 ^ 31 - 2)
    (hlen' : (W' ++ accepted x.other net e).length < 2 ^ 31 - 2) :
    ∃ more more', Delivering (W ++ accepted x net e) (W' ++ accepted x.other net e)
      (taken ++ readOut x.other net e) (tiles ++ more) (tiles' ++ more')
      (machine.step net e x) (machine.step net e x.other) := by
  have hshort : W.length < 2 ^ 31 - 2 := by
    rw [List.length_append] at hlen
    omega
  have hlimit := h.acked.written_lt hshort
  rcases step_cases net x e with
    ⟨hside, hx, hy, hacc, hacc', hread⟩ | ⟨hside, hx, hy, hacc, hacc', hread⟩
  · rw [hx, hy, hacc', hread, List.append_nil, List.append_nil]
    rw [hacc] at hlen ⊢
    obtain ⟨more, hmore, -⟩ := h.acked.send (le_refl _) hlimit hlen
      (segment_mem_of_enabled hen hside)
    refine ⟨more, [], ?_, ?_⟩
    · rw [List.append_nil]
      exact hmore
    · exact finished_of_noWrite h.finished h.acked.channel.drives.sound.stream_wf hcond hside
  · rw [hx, hy, hread]
    rw [hacc, List.append_nil] at hlen ⊢
    rw [hacc'] at hlen' ⊢
    have hfair := h.acked.channel.fair hen hside
    have hagrees := h.acked.channel.agrees
    have hS := h.acked.channel.sent_isPrefix.length_le.trans_lt hlen
    have hmono := (receiver_mono hagrees hS hfair).1
    have hready : ∀ ackno, ((net x.other).step e.2).receiver.ackno = some ackno →
        ∃ m ≤ ((net x.other).step e.2).inboundStream.bytesWritten + 2,
          ackno = wrap m (net x).sender.isn := by
      intro ackno hack
      have hfin := ((net x.other).step e.2).receiver.finBit_le
      refine ⟨_, ?_, ackno_bound (agrees_step hagrees hS hfair) hack⟩
      change 1 + ((net x.other).step e.2).inboundStream.bytesWritten + _ ≤ _
      omega
    obtain ⟨more, hmore⟩ := h.acked.receive (by omega) hlen hlen' hfair hready
    refine ⟨[], more, ?_, h.finished⟩
    rw [List.append_nil]
    exact hmore

variable {cfg : Side → TCPConfig} {random : Side → WrappingInt32} {net₀ : Net}
  {events : List (Side × TCPConnection.Op)}

theorem finished_new {c : TCPConnection} {cfg : TCPConfig} {random : WrappingInt32}
    (h : TCPConnection.new cfg random = some c) : c.sender.Finished ∧ c.sender.checkpoint = 0 := by
  obtain ⟨v, s, -, hs, rfl⟩ := TCPConnection.new_eq_some h
  refine ⟨TCPSender.finished_new hs, ?_⟩
  obtain ⟨stream, -, rfl⟩ := TCPSender.new_eq_some hs
  rfl

theorem delivering_run (hnew : ∀ z, TCPConnection.new (cfg z) (random z) = some (net₀ z))
    (hrun : (machine.restrict (NoWriteAfterEnd x)).Admits net₀ events)
    (hlen : ∀ z, (machine.collect (accepted z) net₀ events).length < 2 ^ 31 - 2) :
    ∃ tiles tiles', Delivering (machine.collect (accepted x) net₀ events)
      (machine.collect (accepted x.other) net₀ events)
      (machine.collect (readOut x.other) net₀ events) tiles tiles'
      (machine.run net₀ events x) (machine.run net₀ events x.other) := by
  revert hlen
  refine (machine.restrict (NoWriteAfterEnd x)).run_induction (P := fun events =>
    (∀ z, (machine.collect (accepted z) net₀ events).length < 2 ^ 31 - 2) →
    ∃ tiles tiles', Delivering (machine.collect (accepted x) net₀ events)
      (machine.collect (accepted x.other) net₀ events)
      (machine.collect (readOut x.other) net₀ events) tiles tiles'
      (machine.run net₀ events x) (machine.run net₀ events x.other)) ?_ ?_ hrun
  · intro _
    obtain ⟨hfinished, hzero⟩ := finished_new (hnew x)
    refine ⟨[], [], ⟨⟨(drives_new (hnew x) _).1, ?_⟩, (drives_new (hnew x.other) _).1, ?_⟩,
      hfinished⟩
    · exact ((drives_new (hnew x.other) (fun _ => True)).2 _ _).1
    · exact hzero ▸ Nat.zero_le _
  · intro past e _ hen ih hlen
    obtain ⟨tiles, tiles', h⟩ :=
      ih fun z => (machine.collect_length_le _ _ _ _).trans_lt (hlen z)
    simp only [Machine.collect_snoc, Machine.run_snoc] at hlen ⊢
    obtain ⟨more, more', hmore⟩ := h.step hen.1 hen.2 (hlen x) (hlen x.other)
    exact ⟨tiles ++ more, tiles' ++ more', hmore⟩

end CleanClose

/-- When side `x` is inactive and neither of its streams is in error, the other side has
written everything the writes of `x` accepted. -/
theorem clean_close_delivers_all {cfg : Side → TCPConfig} {random : Side → WrappingInt32}
    {net₀ : Net} (hnew : ∀ z, TCPConnection.new (cfg z) (random z) = some (net₀ z)) {x : Side}
    {events : List (Side × TCPConnection.Op)}
    (hrun : (machine.restrict (NoWriteAfterEnd x)).Admits net₀ events)
    (hlen : ∀ z, (machine.collect (accepted z) net₀ events).length < 2 ^ 31 - 2)
    (hinactive : (machine.run net₀ events x).isActive = false)
    (hclean : (machine.run net₀ events x).sender.stream.error = false ∧
      (machine.run net₀ events x).inboundStream.error = false) :
    machine.collect (readOut x.other) net₀ events ++
        (machine.run net₀ events x.other).inboundStream.contents =
      machine.collect (accepted x) net₀ events := by
  obtain ⟨tiles, tiles', h⟩ := delivering_run hnew hrun hlen
  have hchannel := h.acked.channel
  have hist := hchannel.drives.history
  rcases hchannel.drives.closed hinactive with herror | ⟨hfin, hcp⟩
  · rw [hclean.1] at herror
    cases herror
  · have hnext := hist.next_eq (hist.syn_of_fin hfin)
    have hbound := h.acked.checkpoint_le
    have hsent : payloads tiles = machine.collect (accepted x) net₀ events := by
      rw [← hist.sent_eq, (h.finished hfin).2, List.append_nil]
    have hwritten := hchannel.agrees.represents.written_eq
    rw [hfin, if_pos rfl] at hnext
    have hall : (payloads tiles).length ≤
        (machine.run net₀ events x.other).receiver.reassembler.output.bytesWritten := by
      change _ ≤ (machine.run net₀ events x.other).inboundStream.bytesWritten
      omega
    rw [← hsent, ← List.take_of_length_le hall]
    exact hwritten

/-- Side B ends its stream first, so that side A need not linger after its own FIN. -/
def passiveClose : List (Side × TCPConnection.Op) :=
  handshake ++ [(.A, .write [7]),
    (.B, .segmentReceived { header := acked 6 101 4, payload := [7] }),
    (.B, .endInputStream),
    (.A, .segmentReceived { header := { acked 101 7 3 with fin := true } }),
    (.A, .endInputStream),
    (.B, .segmentReceived { header := { acked 7 102 4 with fin := true } }),
    (.A, .segmentReceived { header := acked 102 8 3 })]

theorem clean_close_delivers_all_passive :
    (machine.restrict (NoWriteAfterEnd .A)).Admits smallNet passiveClose ∧
      (machine.run smallNet passiveClose .A).isActive = false ∧
      machine.collect (readOut .B) smallNet passiveClose ++
          (machine.run smallNet passiveClose .B).inboundStream.contents =
        machine.collect (accepted .A) smallNet passiveClose :=
  ⟨by decide +kernel, by decide +kernel, clean_close_delivers_all (x := .A) smallNet_new
    (show (machine.restrict (NoWriteAfterEnd .A)).Admits smallNet passiveClose by decide +kernel)
    (fun z => by cases z <;> decide +kernel) (by decide +kernel) (by decide +kernel)⟩

end Network
end Sponge
