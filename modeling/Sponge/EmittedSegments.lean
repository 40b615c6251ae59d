import Sponge.Abort
import Sponge.Adapters
import Sponge.Network

/-!
# The segments an endpoint emits, and the queue they wait in

Every segment is an ordinary one, whatever arrives. The queue of an endpoint is only ever
appended to, so an owner may take segments off it without the endpoint noticing.
-/
namespace Sponge

namespace TCPSender

theorem fillWindow_syn (s : TCPSender) : s.fillWindow.syn = true := by
  cases hsyn : s.syn with
  | false => rw [fillWindow_of_not_syn hsyn, sendSYN, sendSegment_eq]
  | true =>
    obtain ⟨tiles, hfills⟩ := s.fillWindow_fills
    exact hfills.induct (fun _ _ _ hstep _ => hstep.sent.syn_eq) hsyn

/-- Every segment the sender keeps satisfies `P`. -/
structure Only (P : TCPSegment → Prop) (s : TCPSender) : Prop where
  queued : ∀ seg ∈ s.segmentsOut, P seg
  in_flight : ∀ t ∈ s.segmentsInFlight, P t.seg

section Only
variable {P : TCPSegment → Prop} {s t : TCPSender}
  (htile : ∀ {s seg t}, TileStep s seg t → P (s.stamp seg))
  (hempty : ∀ seqno, P { header := { seqno } })

include htile

theorem Only.fillWindow (h : Only P s) : Only P s.fillWindow := by
  obtain ⟨tiles, hfills⟩ := s.fillWindow_fills
  refine hfills.induct (fun t seg u hstep ht => ⟨?_, ?_⟩) h
  · rw [hstep.sent.segmentsOut_eq]
    exact List.forall_mem_append.mpr ⟨ht.queued, List.forall_mem_singleton.mpr (htile hstep)⟩
  · rw [hstep.sent.queue_eq]
    intro u hu
    rcases (List.mem_orderedInsert _).mp hu with rfl | hu
    · exact htile hstep
    · exact ht.in_flight u hu

theorem Only.ackReceived (h : Only P s) (ackno : WrappingInt32) (windowSize : UInt16) :
    Only P (s.ackReceived ackno windowSize) := by
  rcases s.ackReceived_cases ackno windowSize with ⟨heq, -⟩ | ⟨heq, -⟩
  · rw [heq]
    exact ⟨h.queued, h.in_flight⟩
  · rw [heq]
    apply Only.fillWindow htile
    rw [acknowledge_eq]
    exact ⟨h.queued, fun t ht => h.in_flight t (mem_of_mem_dropAcked ht)⟩

omit htile in
theorem Only.tick (h : Only P s) (ms : ℕ) : Only P (s.tick ms) := by
  have hqueue : (s.tick ms).segmentsInFlight = s.segmentsInFlight := by rw [tick_eq]
  constructor
  · rw [tick_segmentsOut]
    refine List.forall_mem_append.mpr ⟨h.queued, ?_⟩
    cases htop : s.segmentsInFlight with
    | nil => exact List.forall_mem_nil _
    | cons t ts =>
      dsimp only
      split
      · exact List.forall_mem_singleton.mpr (h.in_flight t (htop ▸ List.mem_cons_self))
      · exact List.forall_mem_nil _
  · rw [hqueue]
    exact h.in_flight

include hempty

theorem Only.step (h : Only P s) (op : Op) : Only P (s.step op) := by
  cases op with
  | write data => exact ⟨h.queued, h.in_flight⟩
  | endInput => exact ⟨h.queued, h.in_flight⟩
  | fillWindow => exact h.fillWindow htile
  | ackReceived ackno windowSize => exact h.ackReceived htile ackno windowSize
  | tick ms => exact h.tick ms
  | sendEmptySegment =>
    exact ⟨List.forall_mem_append.mpr ⟨h.queued, List.forall_mem_singleton.mpr (hempty _)⟩,
      h.in_flight⟩

end Only

theorem TileStep.ordinary {s t : TCPSender} {seg : TCPSegment} (h : TileStep s seg t) :
    (s.stamp seg).Ordinary := by
  cases h with
  | syn hsyn => exact ⟨rfl, Nat.zero_le _⟩
  | data n =>
    have hsize : payloadSize n ≤ maxPayloadSize := by
      rw [payloadSize]
      split <;> omega
    have hread : s.stream.readLen (payloadSize n) ≤ payloadSize n := by
      rw [ByteStream.readLen]
      split <;> omega
    exact ⟨rfl, (List.length_take_le _ _).trans (hread.trans hsize)⟩

end TCPSender

namespace TCPConnection
variable {c : TCPConnection} {op : Op}

/-- Every segment the endpoint keeps is an ordinary one. -/
structure Regular (c : TCPConnection) : Prop where
  sender : c.sender.Only TCPSegment.Ordinary
  emitted : ∀ seg ∈ c.segmentsOut, seg.Ordinary

theorem Regular.sendSegments (h : c.Regular) (setRst : Bool) : (c.sendSegments setRst).Regular := by
  have hfill := h.sender.fillWindow TCPSender.TileStep.ordinary
  refine ⟨?_, ?_⟩
  · rw [(c.sendSegments_eq setRst).1]
    exact ⟨List.forall_mem_nil _, hfill.in_flight⟩
  · rw [c.sendSegments_segmentsOut setRst]
    refine List.forall_mem_append.mpr ⟨h.emitted, fun seg hseg => ?_⟩
    obtain ⟨orig, horig, rst, rfl⟩ := mem_dressAll hseg
    have hord := hfill.queued orig horig
    have hdoff : (dress c.receiver rst orig).header.doff = orig.header.doff := by
      rw [dress]
      cases c.receiver.ackno <;> cases rst <;> rfl
    have hpayload := (dress_copies c.receiver rst orig).payload_eq
    exact ⟨hdoff.trans hord.doff_eq, hpayload ▸ hord.payload_le⟩

theorem Regular.step (h : c.Regular) (op : Op) : (c.step op).Regular := by
  have hsender : (c.prelude op).sender.Only TCPSegment.Ordinary := by
    have hop := h.sender.step TCPSender.TileStep.ordinary fun _ => ⟨rfl, Nat.zero_le _⟩
    cases op with
    | segmentReceived seg =>
      rcases c.prelude_segmentReceived seg with ⟨-, heq⟩ | ⟨-, heq⟩
      · rw [heq]
        exact h.sender
      · rw [heq, takeIn_sender]
        split
        · exact hop (.ackReceived _ _)
        · exact h.sender
    | write data => exact hop (.write data)
    | tick ms => exact hop (.tick ms)
    | endInputStream => exact hop .endInput
    | connect => exact h.sender
    | read len => exact h.sender
    | pop len => exact h.sender
  refine step_induct ?_ ⟨hsender, (c.prelude_segmentsOut op).symm ▸ h.emitted⟩
  intro d e hmove hd
  cases hmove with
  | send setRst => exact hd.sendSegments setRst
  | kill => exact ⟨⟨hd.sender.queued, hd.sender.in_flight⟩, hd.emitted⟩
  | empty =>
    have hop := hd.sender.step TCPSender.TileStep.ordinary
      (fun _ => ⟨rfl, Nat.zero_le _⟩) .sendEmptySegment
    exact ⟨hop, hd.emitted⟩

theorem regular_new {cfg : TCPConfig} {random : WrappingInt32} (h : new cfg random = some c) :
    c.Regular := by
  obtain ⟨v, s, -, hs, rfl⟩ := new_eq_some h
  obtain ⟨stream, -, rfl⟩ := TCPSender.new_eq_some hs
  exact ⟨⟨List.forall_mem_nil _, List.forall_mem_nil _⟩, List.forall_mem_nil _⟩

section Behind
variable (given : List TCPSegment)

/-- The endpoint with the segments `given` back at the front of its queue. -/
def behind (c : TCPConnection) : TCPConnection := { c with segmentsOut := given ++ c.segmentsOut }

theorem cleanShutdown_behind (c : TCPConnection) :
    (c.behind given).cleanShutdown = c.cleanShutdown.behind given := by
  by_cases hpeer : (c.receiver.streamOut.inputEnded && !c.sender.stream.eof) = true
  · simp only [cleanShutdown, behind, hpeer, if_true]
    split <;> rfl
  · simp only [cleanShutdown, behind, hpeer, Bool.false_eq_true, if_false]
    split <;> rfl

theorem sendSegments_behind (c : TCPConnection) (setRst : Bool) :
    (c.behind given).sendSegments setRst = (c.sendSegments setRst).behind given := by
  rw [sendSegments, sendSegments, ← cleanShutdown_behind]
  congr 1
  simp only [transmit, behind, List.append_assoc]

theorem takeIn_behind (c : TCPConnection) (seg : TCPSegment) :
    (c.behind given).takeIn seg = (c.takeIn seg).behind given := by
  simp only [takeIn]
  split <;> rfl

theorem segmentReceived_behind (c : TCPConnection) (seg : TCPSegment) :
    (c.behind given).segmentReceived seg = (c.segmentReceived seg).behind given := by
  cases hrst : seg.header.rst with
  | true =>
    rw [segmentReceived_of_rst hrst, segmentReceived_of_rst hrst]
    rfl
  | false =>
    by_cases htakes : c.Takes seg
    · have htake := takeIn_behind given { c with timeSinceLastSegmentReceived := 0 } seg
      rw [segmentReceived_of_takes htakes, segmentReceived_of_takes (c := c.behind given) htakes,
        ← sendSegments_behind]
      congr 1
      change (if c.provokes seg = true then _ else _) = _
      by_cases hprovokes : c.provokes seg = true
      · rw [if_pos hprovokes, if_pos hprovokes]
        exact congrArg sendEmptySegment htake
      · rw [if_neg hprovokes, if_neg hprovokes]
        exact htake
    · rw [segmentReceived_of_not_takes hrst htakes,
        segmentReceived_of_not_takes (c := c.behind given) hrst htakes]
      rfl

theorem uncleanShutdown_behind (c : TCPConnection) :
    (c.behind given).uncleanShutdown = c.uncleanShutdown.behind given := by
  change (c.behind given).condemn.sendSegments true = (c.condemn.sendSegments true).behind given
  rw [← sendSegments_behind]
  congr 1
  rw [condemn, condemn]
  change (if c.killConnection.sender.segmentsOut = [] then _ else _) = _
  by_cases hqueue : c.killConnection.sender.segmentsOut = []
  · rw [if_pos hqueue]
    simp only [if_pos hqueue]
    rfl
  · rw [if_neg hqueue]
    simp only [if_neg hqueue]
    rfl

theorem tick_behind (c : TCPConnection) (ms : ℕ) :
    (c.behind given).tick ms = (c.tick ms).behind given := by
  by_cases hretx : maxRetxAttempts < (c.sender.tick ms).nConsecutiveRetransmissions
  · rw [tick_of_exhausted hretx, tick_of_exhausted (c := c.behind given) hretx,
      ← sendSegments_behind, ← uncleanShutdown_behind]
    rfl
  · rw [tick_of_not_exhausted hretx, tick_of_not_exhausted (c := c.behind given) hretx]
    change (if c.sentSYN = true then _ else _) = _
    by_cases hsent : c.sentSYN = true
    · rw [if_pos hsent, if_pos hsent]
      exact sendSegments_behind given (c.prelude (.tick ms)) false
    · rw [if_neg hsent, if_neg hsent]
      rfl

/-- The endpoint does not look at its queue. -/
theorem step_behind (c : TCPConnection) (op : Op) :
    (c.behind given).step op = (c.step op).behind given := by
  cases op with
  | segmentReceived seg => exact segmentReceived_behind given c seg
  | write data =>
    exact sendSegments_behind given { c with sender := c.sender.writeStream data } false
  | tick ms => exact tick_behind given c ms
  | endInputStream => exact sendSegments_behind given { c with sender := c.sender.endStream } false
  | connect => exact sendSegments_behind given c false
  | read len => rfl
  | pop len => rfl

end Behind

/-- The inbound stream keeps its shape whatever arrives, as long as no more is popped than there
is. -/
theorem sized_step {c : TCPConnection} {op : Op} (h : c.receiver.reassembler.Sized)
    (hpop : ∀ len, op = .pop len → len ≤ c.inboundStream.bufferSize) :
    (c.step op).receiver.reassembler.Sized := by
  refine step_receiver (I := fun v => v.reassembler.Sized) (fun v hv => ?_) ?_
  · exact ⟨hv.output_wf.setError, hv.output_capacity, hv.length_buffer, hv.length_written,
      hv.bytesWritten_lt, hv.flag_room, hv.num_eq⟩
  · cases op with
    | segmentReceived seg =>
      rcases c.prelude_receiver seg with ⟨-, heq⟩ | ⟨-, heq⟩
      · rw [heq]
        exact h
      · rw [heq]
        by_cases hlisten : c.receiver.Listens seg
        · rw [TCPReceiver.segmentReceived_eq hlisten]
          exact (h.created _ _ _).sized.writeSegment
        · rw [TCPReceiver.segmentReceived_of_not_listens hlisten]
          exact h
    | read len => exact h.popOutput (ByteStream.readLen_le _ len)
    | pop len => exact h.popOutput (hpop len rfl)
    | _ => exact h

end TCPConnection
end Sponge
