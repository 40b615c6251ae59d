import Sponge.ArbitrarySegments
import Sponge.DeadConnection

/-!
# The window an endpoint advertises

The free space of the inbound buffer is a 64-bit number, and the header has 16 bits for it. The
assignment keeps the low ones, so a large free space is told as a small one or as none at all. The
free space itself is read off a 32-bit end marker, and is right as long as fewer than `2 ^ 32` bytes
wait to be read.
-/
namespace Sponge
open MachineWords

namespace StreamReassembler

/-- The reader has yet to take `unread` bytes; the end marker counts them modulo `2 ^ 32`. -/
structure Marked (capacity unread : ℕ) (r : StreamReassembler) : Prop extends Sized r where
  capacity_eq : r.capacity = capacity
  marker_eq : r.output.endOfBuffer = unread % 2 ^ 32
  unread_le : capacity < 2 ^ 32 → unread ≤ capacity

section Marked
variable {capacity unread : ℕ} {r : StreamReassembler}

theorem marked_new (h : new capacity = some r) : r.Marked capacity 0 := by
  have hsized := (sized_new h).1
  obtain ⟨output, hout, rfl⟩ := new_eq_some h
  obtain ⟨-, rfl⟩ := ByteStream.new_eq_some hout
  exact ⟨hsized, rfl, rfl, fun _ => Nat.zero_le _⟩

theorem Marked.pushSubstring (h : r.Marked capacity unread) (data : List Byte) (index : ℕ)
    (eof : Bool) : (r.pushSubstring data index eof).Marked capacity
      (unread + (r.handed data index eof).length) := by
  have hc := h.created data index eof
  rw [h.length_handed, pushSubstring_eq]
  generalize r.created data index eof = c at hc ⊢
  have hcap := hc.capacity_eq.trans h.capacity_eq
  have hbound := hc.sized.assembled_le
  have hend := hc.sized.endOfBuffer_writeSegment
  have hmarker := h.marker_eq
  rw [hc.output_eq, hcap] at hbound
  rw [hc.output_eq, hmarker, addMod, Nat.mod_add_mod] at hend
  have hkept : c.writeSegment.endOutput.capacity = c.capacity ∧
      c.writeSegment.endOutput.output.endOfBuffer = c.writeSegment.output.endOfBuffer := by
    rw [endOutput_eq]
    exact ⟨rfl, rfl⟩
  refine ⟨hc.sized.writeSegment, hkept.1.trans hcap, hkept.2.trans hend, fun hsmall => ?_⟩
  have hle := h.unread_le hsmall
  omega

theorem Marked.popOutput (h : r.Marked capacity unread) {len : ℕ}
    (hlen : len ≤ r.output.endOfBuffer) : (r.popOutput len).Marked capacity (unread - len) := by
  have hend : (r.popOutput len).output.endOfBuffer = r.output.endOfBuffer - len :=
    h.output_wf.endOfBuffer_popOutput hlen
  have hmarker := h.marker_eq
  refine ⟨h.toSized.popOutput hlen, h.capacity_eq, by omega, fun hsmall => ?_⟩
  have hle := h.unread_le hsmall
  omega

theorem Marked.setError (h : r.Marked capacity unread) :
    { r with output := r.output.setError }.Marked capacity unread :=
  ⟨⟨h.output_wf.setError, h.output_capacity, h.length_buffer, h.length_written, h.bytesWritten_lt,
    h.flag_room, h.num_eq⟩, h.capacity_eq, h.marker_eq, h.unread_le⟩

/-- The free space is right until the marker wraps. -/
theorem Marked.free_eq_iff (h : r.Marked capacity unread) :
    r.output.remainingCapacity + unread = capacity ↔ unread < 2 ^ 32 := by
  have hfree := h.remainingCapacity_eq
  have hend := h.end_le
  have hmarker := h.marker_eq
  rw [room, h.capacity_eq] at hfree
  rw [h.capacity_eq] at hend
  omega

end Marked
end StreamReassembler

namespace TCPConnection
open StreamReassembler

/-- The bytes a call adds to the inbound stream. -/
def reassembled (c : TCPConnection) : Op → List Byte
  | .segmentReceived seg => if c.Takes seg then c.receiver.handed (.segment seg) else []
  | .write _ | .tick _ | .endInputStream | .connect | .read _ | .pop _ => []

/-- The reader pops no more than there is, and no call writes `2 ^ 32` bytes to the inbound stream
at once: from such a call the source does not return. -/
def Returns (c : TCPConnection) (op : Op) : Prop :=
  (∀ len, op = .pop len → len ≤ c.inboundStream.bufferSize) ∧ (c.reassembled op).length < 2 ^ 32

/-- All calls an owner can make and see the end of. -/
def anyCalls : Machine TCPConnection Op := ⟨step, Returns⟩

/-- The bytes put into the inbound stream by a run and not taken out again. -/
def unread (c₀ : TCPConnection) (ops : List Op) : ℕ :=
  (anyCalls.collect reassembled c₀ ops).length - (anyCalls.collect removed c₀ ops).length

/-- The segment tells the free space of the inbound buffer, or as much of it as 16 bits can. -/
structure Truthful (capacity unread : ℕ) (v : TCPReceiver) (seg : TCPSegment) : Prop where
  win_eq : seg.header.win.toNat = min v.windowSize (2 ^ 16 - 1)
  window_eq : v.windowSize + unread = capacity

section Steps
variable {c : TCPConnection} {op : Op}

theorem dressAll_win (v : TCPReceiver) (setRst : Bool) (segs : List TCPSegment) :
    ∀ seg ∈ dressAll v setRst segs, seg.header.win = UInt16.ofNat v.windowSize := by
  induction segs with
  | nil => exact List.forall_mem_nil _
  | cons seg rest ih =>
    refine List.forall_mem_cons.mpr ⟨?_, ih⟩
    simp only [dress]
    split <;> split <;> rfl

/-- Every segment a call appends carries the window of the receiver that the call leaves. -/
theorem step_win (c : TCPConnection) (op : Op) :
    ∃ more, (c.step op).segmentsOut = c.segmentsOut ++ more ∧
      ∀ seg ∈ more, seg.header.win = UInt16.ofNat (c.step op).receiver.windowSize := by
  -- the receiver's window is the same before and after each action
  refine step_induct (I := fun d => ∃ more, d.segmentsOut = c.segmentsOut ++ more ∧
    ∀ seg ∈ more, seg.header.win = UInt16.ofNat d.receiver.windowSize) ?_
    ⟨[], by rw [prelude_segmentsOut, List.append_nil], List.forall_mem_nil _⟩
  rintro d e hmove ⟨more, hmore, hwin⟩
  cases hmove with
  | send setRst =>
    refine ⟨more ++ dressAll d.receiver setRst d.sender.fillWindow.segmentsOut, ?_, ?_⟩
    · rw [sendSegments_segmentsOut, hmore, List.append_assoc]
    · rw [(d.sendSegments_eq setRst).2]
      exact List.forall_mem_append.mpr ⟨hwin, dressAll_win _ _ _⟩
  | kill => exact ⟨more, hmore, hwin⟩
  | empty => exact ⟨more, hmore, hwin⟩

section Marked
variable {capacity unread : ℕ}

theorem marked_step (h : c.receiver.reassembler.Marked capacity unread) (hop : c.Returns op) :
    (c.removed op).length ≤ unread ∧ (c.step op).receiver.reassembler.Marked capacity
      (unread + (c.reassembled op).length - (c.removed op).length) := by
  have hmarker := h.marker_eq
  have htaken (len : ℕ) (hlen : len ≤ c.receiver.reassembler.output.endOfBuffer) :
      (c.receiver.reassembler.output.peekOutput len).length = len := by
    have hend := h.output_wf.end_le
    rw [ByteStream.peekOutput, List.length_take, h.output_wf.length_buffer]
    omega
  cases op with
  | segmentReceived seg =>
    refine ⟨Nat.zero_le _, step_receiver
      (I := fun v => v.reassembler.Marked capacity (unread + (c.reassembled _).length))
      (fun _ => Marked.setError) ?_⟩
    rw [reassembled]
    rcases c.prelude_receiver seg with ⟨htakes, heq⟩ | ⟨htakes, heq⟩
    · rw [heq, if_neg htakes]
      exact h
    · rw [heq, if_pos htakes, TCPReceiver.handed]
      by_cases hlisten : c.receiver.Listens seg
      · rw [if_pos hlisten, TCPReceiver.segmentReceived_eq hlisten]
        exact h.pushSubstring _ _ _
      · rw [if_neg hlisten, TCPReceiver.segmentReceived_of_not_listens hlisten]
        exact h
  | read len =>
    have hlen := c.receiver.reassembler.output.readLen_le len
    have hremoved : (c.removed (.read len)).length = _ := htaken _ hlen
    rw [hremoved]
    exact ⟨by omega, h.popOutput hlen⟩
  | pop len =>
    have hlen : len ≤ c.receiver.reassembler.output.endOfBuffer := hop.1 len rfl
    have hremoved : (c.removed (.pop len)).length = _ := htaken _ hlen
    rw [hremoved]
    exact ⟨by omega, h.popOutput hlen⟩
  | _ =>
    refine ⟨Nat.zero_le _, step_receiver
      (I := fun v => v.reassembler.Marked capacity unread) (fun _ => Marked.setError) h⟩

end Marked
end Steps

section Runs
variable {cfg : TCPConfig} {random : WrappingInt32} {c₀ : TCPConnection} {past ops : List Op}
  {op : Op}

theorem marked_run (hnew : new cfg random = some c₀) (hops : anyCalls.Admits c₀ ops) :
    (anyCalls.run c₀ ops).receiver.reassembler.Marked cfg.recvCapacity (unread c₀ ops) := by
  have hboth : (anyCalls.collect removed c₀ ops).length ≤
        (anyCalls.collect reassembled c₀ ops).length ∧
      (anyCalls.run c₀ ops).receiver.reassembler.Marked cfg.recvCapacity (unread c₀ ops) := by
    refine anyCalls.run_induction (P := fun ops => (anyCalls.collect removed c₀ ops).length ≤
        (anyCalls.collect reassembled c₀ ops).length ∧
      (anyCalls.run c₀ ops).receiver.reassembler.Marked cfg.recvCapacity (unread c₀ ops)) ?_ ?_ hops
    · obtain ⟨receiver, sender, hreceiver, -, rfl⟩ := new_eq_some hnew
      obtain ⟨reassembler, hreassembler, rfl⟩ := TCPReceiver.new_eq_some hreceiver
      exact ⟨le_refl _, marked_new hreassembler⟩
    · rintro past op - hop ⟨hle, hmarked⟩
      obtain ⟨hremoved, hstep⟩ := marked_step hmarked hop
      rw [unread] at hremoved hstep
      rw [unread, anyCalls.run_snoc, anyCalls.collect_snoc, anyCalls.collect_snoc,
        List.length_append, List.length_append]
      rw [← Nat.sub_add_comm hle, Nat.sub_sub] at hstep
      exact ⟨by omega, hstep⟩
  exact hboth.2

/-- A segment is truthful exactly if the free space fits into the field or ends in sixteen ones,
and it is read off a marker that has not wrapped. A small buffer meets both always. -/
theorem truthful_iff (hnew : new cfg random = some c₀) (hops : anyCalls.Admits c₀ (past ++ [op])) :
    let v := (anyCalls.run c₀ (past ++ [op])).receiver
    let waiting := unread c₀ (past ++ [op])
    let free := cfg.recvCapacity - waiting
    ∃ more, (anyCalls.run c₀ (past ++ [op])).segmentsOut =
        (anyCalls.run c₀ past).segmentsOut ++ more ∧
      ∀ seg ∈ more, (Truthful cfg.recvCapacity waiting v seg ↔
          waiting < 2 ^ 32 ∧ (free < 2 ^ 16 ∨ free % 2 ^ 16 = 2 ^ 16 - 1)) ∧
        (seg.header.win = 0 ↔ v.windowSize % 2 ^ 16 = 0) ∧
        (cfg.recvCapacity < 2 ^ 16 → Truthful cfg.recvCapacity waiting v seg) := by
  intro v waiting free
  obtain ⟨more, hmore, hwin⟩ := (anyCalls.run c₀ past).step_win op
  have hmarked := marked_run hnew hops
  have hfree : v.windowSize + waiting = cfg.recvCapacity ↔ waiting < 2 ^ 32 := hmarked.free_eq_iff
  have hsmall := hmarked.unread_le
  have hrun := anyCalls.run_snoc c₀ past op
  refine ⟨more, (congrArg segmentsOut hrun).trans hmore, fun seg hseg => ?_⟩
  have htold : seg.header.win.toNat = v.windowSize % 2 ^ 16 := by
    have hv : v = ((anyCalls.run c₀ past).step op).receiver := congrArg receiver hrun
    rw [hwin seg hseg, UInt16.toNat_ofNat', hv]
  have htruthful : Truthful cfg.recvCapacity waiting v seg ↔
      waiting < 2 ^ 32 ∧ (free < 2 ^ 16 ∨ free % 2 ^ 16 = 2 ^ 16 - 1) := by
    constructor
    · rintro ⟨hmin, hsum⟩
      have hword := hfree.mp hsum
      omega
    · rintro ⟨hword, hfits⟩
      have hsum := hfree.mpr hword
      exact ⟨by omega, hsum⟩
  refine ⟨htruthful, ?_, fun hcap => htruthful.mpr ⟨?_, ?_⟩⟩
  · rw [← UInt16.toNat_inj, htold]
    rfl
  · have hle := hsmall (by omega)
    omega
  · omega

end Runs

section Small
open Network

theorem truthful_iff_connect :
    ∃ seg ∈ (anyCalls.run (smallNet .A) [.connect]).segmentsOut,
      Truthful 4 0 (anyCalls.run (smallNet .A) [.connect]).receiver seg := by
  have hadmits : anyCalls.Admits (smallNet .A) ([] ++ [.connect]) :=
    ⟨⟨fun _ hpop => (nomatch hpop), by decide⟩, trivial⟩
  obtain ⟨more, hmore, hwin⟩ := truthful_iff (smallNet_new .A) hadmits
  have hall : (anyCalls.run (smallNet .A) [.connect]).segmentsOut = more := by
    rw [List.nil_append] at hmore
    exact hmore.trans (List.nil_append more)
  have hsent : (anyCalls.run (smallNet .A) [.connect]).segmentsOut ≠ [] := by decide +kernel
  obtain ⟨seg, hseg⟩ := List.exists_mem_of_ne_nil _ hsent
  exact ⟨seg, hseg, (hwin seg (hall ▸ hseg)).1.mpr (by decide +kernel)⟩

/-- With `2 ^ 16` free bytes the SYN advertises none. -/
theorem zero_window_of_free_buffer :
    ∃ c₀, new { recvCapacity := 65536 } ⟨0⟩ = some c₀ ∧
      (anyCalls.run c₀ [.connect]).receiver.windowSize = 65536 ∧
      ∃ seg ∈ (anyCalls.run c₀ [.connect]).segmentsOut, seg.header.win = 0 := by
  exact ⟨_, rfl, by decide +kernel, _, List.mem_singleton_self _, by decide +kernel⟩

end Small
end TCPConnection
end Sponge
