import Sponge.Abort
import Sponge.TCPState

/-!
# A listening endpoint

Until a SYN arrives an endpoint in the state LISTEN is meant to say nothing and to stay as it is.
Segments with an acknowledgment are passed over, but the check for a reset comes before, and a
segment with neither flag is taken in like any other: the answer to it opens the connection.
-/
namespace Sponge.TCPConnection
open TCPSender

/-- The endpoint waits for a SYN and has sent nothing. -/
structure Listens (c : TCPConnection) : Prop where
  active : c.isActive = true
  state_eq : c.state = .ofState .listen
  next_eq : c.sender.nextSeqno = 0
  silent : c.segmentsOut = []

/-- The calls of a wait in which no SYN arrives. -/
def NoSYN : Op → Prop
  | .segmentReceived seg => seg.header.syn = false
  | .tick _ => True
  | .write _ | .endInputStream | .connect | .read _ | .pop _ => False

/-- A segment that a listening endpoint passes over. -/
def PassedOver (seg : TCPSegment) : Prop :=
  seg.header.ack = true ∧ seg.header.rst = false

def Harmless : Op → Prop
  | .segmentReceived seg => PassedOver seg
  | _ => True

/-- Nothing but the clocks has changed since the endpoint was created. -/
structure Untouched (c : TCPConnection) : Prop where
  listens : c.Listens
  emptied : c.Emptied
  unopened : c.sentSYN = false
  unsent : c.sender.syn = false
  attempts_eq : c.sender.nConsecutiveRetransmissions = 0

/-- The endpoint has given itself away; no later call takes that back. -/
def Disturbed (c : TCPConnection) : Prop := c.isActive = false ∨ c.segmentsOut ≠ []

section Steps
variable {c d : TCPConnection} {op : Op}

theorem Disturbed.not_listens (h : c.Disturbed) : ¬ c.Listens := by
  intro hlistens
  rcases h with hdead | hsent
  · rw [hlistens.active] at hdead
    cases hdead
  · exact hsent hlistens.silent

theorem Disturbed.move (hmove : Move c d) (h : c.Disturbed) : d.Disturbed := by
  refine h.imp hmove.dead fun hsent => ?_
  cases hmove with
  | send setRst =>
    rw [sendSegments_segmentsOut]
    exact List.append_ne_nil_of_left_ne_nil hsent _
  | kill => exact hsent
  | empty => exact hsent

theorem Disturbed.step (h : c.Disturbed) (op : Op) : (c.step op).Disturbed := by
  refine step_induct (fun _ _ => Disturbed.move) ?_
  rw [Disturbed, prelude_isActive, prelude_segmentsOut]
  exact h

theorem Untouched.tick (h : c.Untouched) (ms : ℕ) : (c.tick ms).Untouched := by
  have hnone := h.emptied.unopened h.unopened
  have hattempts : (c.sender.tick ms).nConsecutiveRetransmissions = 0 := by
    rcases c.sender.tick_backoff ms with ⟨hsame, -⟩ | ⟨hsome, -⟩
    · exact hsame.trans h.attempts_eq
    · exact absurd hnone hsome
  have hticked : c.tick ms = c.prelude (.tick ms) := by
    rw [tick_of_not_exhausted (by omega), h.unopened, if_neg Bool.false_ne_true]
  have hsummary : (c.sender.tick ms).stateSummary = c.sender.stateSummary := by
    rw [tick_eq]
    rfl
  have hstate : (c.prelude (.tick ms)).state = c.state := by
    rw [state, state, prelude, hsummary]
  rw [hticked]
  refine ⟨⟨h.listens.active, hstate.trans h.listens.state_eq, ?_, h.listens.silent⟩,
    h.emptied.tick ms h.unopened, h.unopened, ?_, hattempts⟩
  · change (c.sender.tick ms).nextSeqno = 0
    rw [tick_eq]
    exact h.listens.next_eq
  · change (c.sender.tick ms).syn = false
    rw [tick_eq]
    exact h.unsent

theorem Untouched.passOver (h : c.Untouched) {seg : TCPSegment} (hseg : PassedOver seg) :
    (c.segmentReceived seg).Untouched := by
  have htakes : ¬ c.Takes seg := by
    rintro ⟨-, hsent | hack⟩
    · rw [h.unopened] at hsent
      cases hsent
    · rw [hseg.1] at hack
      cases hack
  rw [segmentReceived_of_not_takes hseg.2 htakes]
  exact ⟨⟨h.listens.active, h.listens.state_eq, h.listens.next_eq, h.listens.silent⟩,
    ⟨h.emptied.queue_eq, h.emptied.unopened⟩, h.unopened, h.unsent, h.attempts_eq⟩

/-- The first segment that is sent is the SYN, whatever caused it. -/
theorem Untouched.disturbed (h : c.Untouched) {seg : TCPSegment} (hseg : ¬ PassedOver seg) :
    (c.segmentReceived seg).Disturbed := by
  cases hrst : seg.header.rst with
  | true =>
    rw [segmentReceived_of_rst hrst]
    exact Or.inl rfl
  | false =>
    have hack : seg.header.ack = false := by
      by_contra hset
      exact hseg ⟨Bool.not_eq_false _ ▸ hset, hrst⟩
    have htakes : c.Takes seg := ⟨hrst, Or.inr hack⟩
    refine Or.inr fun hsilent => ?_
    rw [← h.listens.silent, h.emptied.segmentReceived_silent_iff htakes] at hsilent
    obtain ⟨-, hidle⟩ := hsilent
    rw [heardBy, hack, if_neg Bool.false_ne_true] at hidle
    have hsyn := hidle.1
    rw [h.unsent] at hsyn
    cases hsyn

theorem Untouched.step (h : c.Untouched) (hop : NoSYN op) :
    Harmless op ∧ (c.step op).Untouched ∨ ¬ Harmless op ∧ (c.step op).Disturbed := by
  cases op with
  | segmentReceived seg =>
    by_cases hseg : PassedOver seg
    · exact Or.inl ⟨hseg, h.passOver hseg⟩
    · exact Or.inr ⟨hseg, h.disturbed hseg⟩
  | tick ms => exact Or.inl ⟨trivial, h.tick ms⟩
  | write data => exact hop.elim
  | endInputStream => exact hop.elim
  | connect => exact hop.elim
  | read len => exact hop.elim
  | pop len => exact hop.elim

end Steps

section Runs
variable {cfg : TCPConfig} {random : WrappingInt32} {c₀ : TCPConnection} {ops : List Op}

theorem untouched_new (hnew : new cfg random = some c₀) : c₀.Untouched := by
  obtain ⟨receiver, sender, hreceiver, hsender, rfl⟩ := new_eq_some hnew
  obtain ⟨stream, hstream, rfl⟩ := TCPSender.new_eq_some hsender
  obtain ⟨reassembler, hreassembler, rfl⟩ := TCPReceiver.new_eq_some hreceiver
  obtain ⟨output, houtput, rfl⟩ := StreamReassembler.new_eq_some hreassembler
  refine ⟨⟨rfl, ?_, rfl, rfl⟩, ⟨rfl, fun _ => rfl⟩, rfl, rfl, rfl⟩
  rw [(ByteStream.new_eq_some hstream).2, (ByteStream.new_eq_some houtput).2]
  rfl

/-- A wait is undisturbed until a segment is not passed over, and never again afterwards. -/
theorem untouched_or_disturbed (hnew : new cfg random = some c₀) (hops : ∀ op ∈ ops, NoSYN op) :
    (∀ op ∈ ops, Harmless op) ∧ (machine.run c₀ ops).Untouched ∨
      ¬ (∀ op ∈ ops, Harmless op) ∧ (machine.run c₀ ops).Disturbed := by
  induction ops using List.reverseRecOn with
  | nil => exact Or.inl ⟨List.forall_mem_nil _, untouched_new hnew⟩
  | append_singleton past op ih =>
    rw [List.forall_mem_append, List.forall_mem_singleton] at hops ⊢
    rw [machine.run_snoc]
    rcases ih hops.1 with ⟨hpast, huntouched⟩ | ⟨hpast, hdisturbed⟩
    · rw [and_iff_right hpast]
      exact huntouched.step hops.2
    · exact Or.inr ⟨fun h => hpast h.1, hdisturbed.step op⟩

/-- The wait is undisturbed exactly if every segment is passed over. -/
theorem listens_iff (hnew : new cfg random = some c₀) (hops : ∀ op ∈ ops, NoSYN op) :
    (machine.run c₀ ops).Listens ↔
      ∀ seg, Op.segmentReceived seg ∈ ops → seg.header.ack = true ∧ seg.header.rst = false := by
  have hharmless : (∀ op ∈ ops, Harmless op) ↔
      ∀ seg, Op.segmentReceived seg ∈ ops → PassedOver seg := by
    refine ⟨fun h seg hseg => h _ hseg, fun h op hop => ?_⟩
    cases op with
    | segmentReceived seg => exact h seg hop
    | _ => trivial
  refine Iff.trans ?_ hharmless
  rcases untouched_or_disturbed hnew hops with ⟨hall, h⟩ | ⟨hnone, h⟩
  · exact iff_of_true h.listens hall
  · exact iff_of_false h.not_listens hnone

end Runs

section Small
open Network

theorem listens_iff_late_ack :
    (machine.run (smallNet .A) [.tick 500, .segmentReceived { header := acked 3 9 4 }]).Listens :=
  (listens_iff (smallNet_new .A) (by simp [NoSYN, acked])).mpr (by simp [acked])

/-- One byte without any flag makes a listening endpoint open the connection, and a reset closes
it. -/
theorem listening_disturbed :
    (machine.run (smallNet .A) [.segmentReceived { payload := [7] }]).segmentsOut ≠ [] ∧
      (machine.run (smallNet .A) [.segmentReceived { payload := [7] }]).sender.nextSeqno = 1 ∧
      (machine.run (smallNet .A) [reset]).isActive = false := by
  decide +kernel

end Small
end Sponge.TCPConnection
