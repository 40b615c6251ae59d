import Sponge.DeadConnection

/-!
# What becomes of the bytes an endpoint accepts

Every accepted byte is waiting in the outbound stream or has left in a segment, at a number before
the FIN's. `ByteStream::write` does not ask whether the input has ended, so this rests on the owner:
a byte accepted after the FIN was sent would wait forever.
-/
namespace Sponge
open MachineWords TCPSender TCPSegment

namespace TCPSender

theorem ackReceived_latches (s : TCPSender) (ackno : WrappingInt32) (windowSize : UInt16) :
    (s.ackReceived ackno windowSize).stream.isInputEnded = s.stream.isInputEnded ∧
      (s.fin = true → (s.ackReceived ackno windowSize).fin = true) := by
  rcases s.ackReceived_cases ackno windowSize with ⟨heq, -⟩ | ⟨heq, -⟩
  · rw [heq]
    exact ⟨rfl, id⟩
  · obtain ⟨tiles, hfills⟩ := ({ s with rwnd := windowSize.toNat }.acknowledge
      (unwrap ackno s.isn s.checkpoint)).fillWindow_fills
    rw [heq, hfills.frame.ended_eq]
    refine ⟨by rw [acknowledge_eq], fun hfin => fillWindow_fin ?_⟩
    rw [acknowledge_eq]
    exact hfin

/-- Each byte that has left the stream is in a tile. -/
theorem History.exists_tile {W : List Byte} {tiles : List OrderedSegment} {s : TCPSender}
    (h : History W tiles s) {k : ℕ} (hk : k < (payloads tiles).length) :
    ∃ t ∈ tiles, t.absSeqno - 1 ≤ k ∧ k < t.absSeqno - 1 + t.seg.payload.length := by
  have hsyn : s.syn = true := by
    by_contra hsyn
    obtain ⟨rfl, -⟩ := h.unsent (Bool.not_eq_true _ ▸ hsyn)
    exact absurd hk (Nat.not_lt_zero k)
  have hnext := h.next_eq hsyn
  obtain ⟨t, ⟨ht, hlo, hhi⟩, -⟩ := h.cover.existsUnique (q := 1 + k) (Nat.zero_le _) (by omega)
  obtain ⟨rest, rfl, hrest⟩ := h.opened hsyn
  rcases List.mem_cons.mp ht with rfl | hmem
  · exact absurd hhi (by simp [OrderedSegment.length, synSegment, lengthInSequenceSpace])
  · have hlen : t.length = t.seg.payload.length + (if t.seg.header.fin then 1 else 0) := by
      rw [OrderedSegment.length, lengthInSequenceSpace, (hrest t hmem).1]
      rfl
    refine ⟨t, ht, by omega, ?_⟩
    cases hfin : t.seg.header.fin with
    | false =>
      rw [hfin] at hlen
      simp only [Bool.false_eq_true, if_false] at hlen
      omega
    | true =>
      obtain ⟨hset, hend⟩ := h.fin_last t ht hfin
      rw [hset] at hnext
      rw [hfin] at hlen
      simp only [if_true] at hnext hlen
      omega

end TCPSender

namespace TCPConnection

/-- The history of the sender, whose FIN was sent on a stream that stays at its end. -/
structure Accounts (W : List Byte) (tiles : List OrderedSegment) (c : TCPConnection) : Prop
    extends Drives (fun _ => True) W tiles c where
  finished : c.sender.Finished

section Moves
variable {W : List Byte} {tiles : List OrderedSegment} {c : TCPConnection}

/-- The owner's writes fit the end marker, and what it writes after it has ended the stream is
empty or finds the stream full. -/
def WritesFinal (c : TCPConnection) : Op → Prop
  | .write data => c.sender.MarkerFits (.write data) ∧
      (c.sender.stream.inputEnded = true → data = [] ∨ c.sender.stream.remainingCapacity = 0)
  | _ => True

instance (c : TCPConnection) (op : Op) : Decidable (c.WritesFinal op) := by
  cases op <;> simp only [WritesFinal] <;> infer_instance

theorem WritesFinal.accepted_eq {op : Op} (h : c.WritesFinal op)
    (hended : c.sender.stream.isInputEnded = true) : c.accepted op = [] := by
  cases op with
  | write data =>
    rcases h.2 hended with rfl | hfull
    · exact List.take_nil
    · simp [accepted, ByteStream.writeSize, hfull]
  | _ => rfl

/-- A call extends the account by the bytes it accepts. -/
theorem Accounts.step {op : Op} (h : Accounts W tiles c) (hop : c.WritesFinal op) :
    ∃ tiles', Accounts (W ++ c.accepted op) tiles' (c.step op) := by
  have hmarker : ∀ data, op = .write data → c.sender.MarkerFits (.write data) := by
    rintro data rfl
    exact hop.1
  obtain ⟨more, hmore⟩ := h.toDrives.step hmarker fun _ _ => trivial
  refine ⟨tiles ++ more, hmore.drives, finished_step h.finished h.sound.stream_wf ?_⟩
  rintro data rfl hfin
  have hnone := congrArg List.length (hop.accepted_eq (h.finished hfin).1)
  simpa [accepted, c.sender.stream.writeSize_le_length data] using hnone

/-- The end of the input and the FIN are never taken back. -/
theorem step_latches (c : TCPConnection) (op : Op) :
    (c.sender.stream.isInputEnded = true → (c.step op).sender.stream.isInputEnded = true) ∧
      (c.sender.fin = true → (c.step op).sender.fin = true) := by
  refine step_induct (I := fun d =>
    (c.sender.stream.isInputEnded = true → d.sender.stream.isInputEnded = true) ∧
      (c.sender.fin = true → d.sender.fin = true)) ?_ ?_
  · rintro d e hmove ⟨hended, hfin⟩
    cases hmove with
    | send setRst =>
      obtain ⟨tiles, hfills⟩ := d.sender.fillWindow_fills
      rw [(d.sendSegments_eq setRst).1]
      exact ⟨fun h => hfills.frame.ended_eq.trans (hended h), fun h => fillWindow_fin (hfin h)⟩
    | kill => exact ⟨hended, hfin⟩
    | empty => exact ⟨hended, hfin⟩
  · cases op with
    | segmentReceived seg =>
      rcases c.prelude_segmentReceived seg with ⟨-, heq⟩ | ⟨-, heq⟩
      · rw [heq]
        exact ⟨id, id⟩
      · rw [heq, takeIn_sender]
        split
        · obtain ⟨hended, hfin⟩ := c.sender.ackReceived_latches seg.header.ackno seg.header.win
          exact ⟨hended.trans, hfin⟩
        · exact ⟨id, id⟩
    | write data =>
      simp only [prelude, TCPSender.writeStream]
      rw [ByteStream.write_frame]
      exact ⟨id, id⟩
    | tick ms =>
      simp only [prelude]
      rw [tick_eq]
      exact ⟨id, id⟩
    | endInputStream => exact ⟨fun _ => rfl, id⟩
    | connect => exact ⟨id, id⟩
    | read len => exact ⟨id, id⟩
    | pop len => exact ⟨id, id⟩

end Moves

def finalWrites : Machine TCPConnection Op := ⟨step, WritesFinal⟩

instance (c : TCPConnection) (op : Op) : Decidable (finalWrites.enabled c op) :=
  inferInstanceAs (Decidable (c.WritesFinal op))

section Run
variable {cfg : TCPConfig} {random : WrappingInt32} {c₀ : TCPConnection} {ops : List Op}

theorem accounts_run (hnew : new cfg random = some c₀) (hops : finalWrites.Admits c₀ ops) :
    ∃ tiles, Accounts (finalWrites.collect accepted c₀ ops) tiles (finalWrites.run c₀ ops) := by
  refine finalWrites.run_induction (P := fun ops => ∃ tiles,
    Accounts (finalWrites.collect accepted c₀ ops) tiles (finalWrites.run c₀ ops)) ?_ ?_ hops
  · exact ⟨[], (Network.drives_new hnew _).1, (Network.finished_new hnew).1⟩
  · rintro past op - hop ⟨tiles, htiles⟩
    rw [Machine.collect_snoc, Machine.run_snoc]
    exact htiles.step hop

theorem latched_run (early late : List Op) :
    ((finalWrites.run c₀ early).sender.stream.isInputEnded = true →
      (finalWrites.run c₀ (early ++ late)).sender.stream.isInputEnded = true) ∧
    ((finalWrites.run c₀ early).sender.fin = true →
      (finalWrites.run c₀ (early ++ late)).sender.fin = true) := by
  induction late using List.reverseRecOn with
  | nil => simp
  | append_singleton late op ih =>
    obtain ⟨hended, hfin⟩ := step_latches (finalWrites.run c₀ (early ++ late)) op
    rw [← List.append_assoc, Machine.run_snoc]
    exact ⟨hended ∘ ih.1, hfin ∘ ih.2⟩

/-- Nothing is accepted once the input has ended. -/
theorem accepted_of_ended {early late : List Op} (hops : finalWrites.Admits c₀ (early ++ late))
    (hended : (finalWrites.run c₀ early).sender.stream.isInputEnded = true) :
    finalWrites.collect accepted c₀ (early ++ late) = finalWrites.collect accepted c₀ early := by
  induction late using List.reverseRecOn with
  | nil => rw [List.append_nil]
  | append_singleton late op ih =>
    rw [← List.append_assoc, Machine.admits_snoc] at hops
    rw [← List.append_assoc, Machine.collect_snoc, ih hops.1,
      hops.2.accepted_eq ((latched_run early late).1 hended), List.append_nil]

theorem ended_input_is_final (hnew : new cfg random = some c₀)
    (hops : finalWrites.Admits c₀ ops) :
    let c := finalWrites.run c₀ ops
    let W := finalWrites.collect accepted c₀ ops
    (∀ early late, ops = early ++ late →
      (finalWrites.run c₀ early).sender.stream.inputEnded = true →
      W = finalWrites.collect accepted c₀ early) ∧
    (∀ early late, ops = early ++ late → (finalWrites.run c₀ early).sender.fin = true →
      c.sender.stream.bufferEmpty = true ∧ c.sender.stream.eof = true) ∧
    ∃ sent, sent ++ c.sender.stream.contents = W ∧
      (∀ k < sent.length, ∃ seg ∈ c.segmentsOut, ∃ i, seg.Carries c.sender.isn W i ∧ i ≤ k ∧
        k < i + seg.payload.length) ∧
      (c.sender.fin = true → sent = W ∧ c.sender.nextSeqno = 2 + W.length) := by
  intro c W
  obtain ⟨tiles, h⟩ := accounts_run hnew hops
  have hqueue := (emptied_run hnew ops).queue_eq
  refine ⟨?_, ?_, payloads tiles, h.history.sent_eq, ?_, ?_⟩
  · rintro early late rfl hended
    exact accepted_of_ended hops hended
  · rintro early late rfl hfin
    obtain ⟨hended, hdrained⟩ := h.finished ((latched_run early late).2 hfin)
    have hempty := h.sound.stream_wf.bufferEmpty_iff.mpr hdrained
    exact ⟨hempty, by rw [ByteStream.eof, Bool.and_eq_true]; exact ⟨hended, hempty⟩⟩
  · intro k hk
    obtain ⟨t, ht, hlo, hhi⟩ := h.history.exists_tile hk
    rcases h.pushed t ht with hwaits | ⟨out, hout, hcopy⟩
    · rw [show (finalWrites.run c₀ ops).sender.segmentsOut = [] from hqueue] at hwaits
      cases hwaits
    · refine ⟨out, hout, t.absSeqno - 1, ?_, hlo, hcopy.payload_eq ▸ hhi⟩
      have hcarries := (hcopy.carries (h.history.carries t ht)).append_right c.sender.stream.contents
      rwa [h.history.sent_eq] at hcarries
  · intro hfin
    have hdrained := (h.finished hfin).2
    refine ⟨?_, h.history.next_of_fin hfin hdrained⟩
    have hsent := h.history.sent_eq
    rw [hdrained, List.append_nil] at hsent
    exact hsent

end Run

section Closed
open Network

/-- A connection is set up, a byte is written and the input is ended. -/
def closed : List Op :=
  [.connect, .segmentReceived { header := { acked 100 6 4 with syn := true } }, .write [7],
    .endInputStream]

theorem ended_input_is_final_closed :
    finalWrites.Admits (smallNet .A) (closed ++ [.write []]) ∧
      (finalWrites.run (smallNet .A) closed).sender.fin = true ∧
      (finalWrites.run (smallNet .A) (closed ++ [.write []])).sender.stream.eof = true := by
  have hops : finalWrites.Admits (smallNet .A) (closed ++ [.write []]) := by decide +kernel
  have hfin : (finalWrites.run (smallNet .A) closed).sender.fin = true := by decide +kernel
  exact ⟨hops, hfin, ((ended_input_is_final (smallNet_new .A) hops).2.1 closed _ rfl hfin).2⟩

/-- A byte written after the FIN was sent is accepted, and waits for good. -/
theorem write_after_fin_accepted :
    (finalWrites.run (smallNet .A) closed).sender.fin = true ∧
      (finalWrites.run (smallNet .A) closed).accepted (.write [8]) = [8] ∧
      (finalWrites.run (smallNet .A) (closed ++ [.write [8]])).sender.stream.eof = false := by
  decide +kernel

end Closed
end TCPConnection
end Sponge
