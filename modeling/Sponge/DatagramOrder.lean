import Sponge.GatedQueue
import Sponge.InterfaceCalls

/-!
# The interface keeps the order of datagrams

For each next hop the interface is a queue behind a gate, which is open while the hop's Ethernet
address is known: the datagrams that went out passed, the unsent ones are held. The interface needs
an IPv4 address of its own; otherwise it cannot ask for the hop's, and the datagram is lost.
-/
namespace Sponge
open EthernetHeader

namespace NetworkInterface

def ipv4Payloads (frames : List EthernetFrame) : List BufferList :=
  (frames.filter fun frame => frame.header.type = typeIPv4).map (·.payload)

/-- The payloads of the IPv4 frames a call puts out for the next hop `ip`. -/
def sentFor (ip : UInt32) (s : NetworkInterface) (op : Op) : List BufferList :=
  if s.hop op = some ip then ipv4Payloads (s.emits op) else []

/-- The serialized datagram a call is given for the next hop `ip`. -/
def givenFor (ip : UInt32) : Op → List BufferList
  | .sendDatagram dgram nextHop =>
    if nextHop.ipv4 = some ip then dgram.serialize.toOption.toList else []
  | _ => []

/-- The queue behind the gate of the next hop `ip`. -/
def gate (s : NetworkInterface) (ip : UInt32) (passed : List BufferList) :
    GatedQueue BufferList where
  passed
  held := (s.notSentDgrams ip).getD []
  isOpen := (s.ip2eth ip).isSome

/-- What a call means for the queue of the next hop `ip`. -/
def gateOps (ip : UInt32) (s : NetworkInterface) : Op → List (GatedQueue.Op BufferList)
  | .sendDatagram dgram nextHop => (givenFor ip (.sendDatagram dgram nextHop)).map .put
  | .recvFrame frame => if s.hop (.recvFrame frame) = some ip then [.lift] else []
  | .tick ms => if ((s.tick ms).ip2eth ip).isSome then [] else [.shut]

theorem ipv4Payloads_append (fs gs : List EthernetFrame) :
    ipv4Payloads (fs ++ gs) = ipv4Payloads fs ++ ipv4Payloads gs := by
  simp [ipv4Payloads]

@[simp] theorem ipv4Payloads_ipv4Frame (s : NetworkInterface) (eth : EthernetAddress)
    (payloads : List BufferList) : ipv4Payloads (payloads.map (s.ipv4Frame eth)) = payloads := by
  induction payloads with
  | nil => rfl
  | cons payload payloads ih =>
    rw [List.map_cons, ← List.singleton_append, ipv4Payloads_append, ih]
    rfl

@[simp] theorem ipv4Payloads_requests (s : NetworkInterface) (ip : UInt32) :
    ipv4Payloads (s.requests ip) = [] := by
  rw [requests]
  split
  · cases s.ipAddress.ipv4 <;> rfl
  · rfl

@[simp] theorem ipv4Payloads_replies (s : NetworkInterface) (message : ARPMessage) :
    ipv4Payloads (s.replies message) = [] := by
  rw [replies]
  split <;> rfl

/-- No IPv4 frame is put out but for a next hop. -/
theorem mem_sentFor {s : NetworkInterface} {ops : List Op} {frame : EthernetFrame}
    (hframe : frame ∈ calls.collect emits s ops) (htype : frame.header.type = typeIPv4) :
    ∃ ip, frame.payload ∈ calls.collect (sentFor ip) s ops := by
  induction ops generalizing s with
  | nil => cases hframe
  | cons op ops ih =>
    simp only [Machine.collect_cons, List.mem_append] at hframe ⊢
    rcases hframe with hframe | hframe
    · cases hhop : s.hop op with
      | none => simp [emits_of_not_hop hhop] at hframe
      | some ip =>
        refine ⟨ip, Or.inl ?_⟩
        rw [sentFor, if_pos hhop, ipv4Payloads]
        exact List.mem_map_of_mem (List.mem_filter.mpr ⟨hframe, decide_eq_true htype⟩)
    · obtain ⟨ip, hip⟩ := ih hframe
      exact ⟨ip, Or.inr hip⟩

section Gate
variable {s : NetworkInterface} {own : UInt32} (hown : s.ipAddress.ipv4 = some own) (ip : UInt32)
  (passed : List BufferList)
include hown

theorem gate_sendDatagram (dgram : InternetDatagram) (nextHop : Address) :
    GatedQueue.machine.run (s.gate ip passed) (gateOps ip s (.sendDatagram dgram nextHop)) =
      (s.step (.sendDatagram dgram nextHop)).gate ip
        (passed ++ sentFor ip s (.sendDatagram dgram nextHop)) := by
  cases hhop : nextHop.ipv4 with
  | none => simp [gateOps, givenFor, hhop, sentFor, hop, step_of_not_ipv4 hhop]
  | some target =>
    cases hmapped : s.ip2eth target with
    | some entry =>
      rw [sentFor, emits_of_mapped hhop hmapped, step_of_mapped hhop hmapped, gateOps,
        GatedQueue.run_put]
      by_cases htarget : target = ip
      · subst htarget
        simp [givenFor, hhop, hop, gate, hmapped]
      · simp [givenFor, hhop, hop, htarget, gate]
    | none =>
      rw [sentFor, emits_of_not_mapped hhop hmapped,
        step_of_not_mapped hhop hmapped (not_mute hown), gateOps, GatedQueue.run_put]
      by_cases htarget : target = ip
      · subst htarget
        simp [givenFor, hhop, hop, gate, awaiting, hmapped]
      · simp [givenFor, hhop, hop, htarget, gate, awaiting, Ne.symm htarget]

theorem gate_recvFrame (frame : EthernetFrame) :
    GatedQueue.machine.run (s.gate ip passed) (gateOps ip s (.recvFrame frame)) =
      (s.step (.recvFrame frame)).gate ip (passed ++ sentFor ip s (.recvFrame frame)) := by
  cases hheard : s.heard frame with
  | none => simp [gateOps, sentFor, hop, hheard, step_of_not_heard hheard]
  | some message =>
    have hbaffles := not_baffles hown message
    rw [sentFor, emits_of_heard hheard hbaffles, step_of_heard hheard hbaffles]
    by_cases hsender : message.senderIPAddress = ip
    · subst hsender
      simp [gateOps, hop, hheard, gate, learn, ipv4Payloads_append, GatedQueue.machine,
        GatedQueue.step]
    · simp [gateOps, hop, hheard, hsender, gate, learn, Ne.symm hsender]

omit hown in
theorem gate_tick (ms : ℕ) :
    GatedQueue.machine.run (s.gate ip passed) (gateOps ip s (.tick ms)) =
      (s.step (.tick ms)).gate ip (passed ++ sentFor ip s (.tick ms)) := by
  have hstep : s.step (.tick ms) = s.tick ms := rfl
  have hheld : (s.tick ms).notSentDgrams = s.notSentDgrams := rfl
  rw [sentFor, emits_tick, gateOps, hstep]
  cases hmapped : (s.tick ms).ip2eth ip with
  | none => simp [GatedQueue.machine, GatedQueue.step, gate, hop, hmapped, hheld]
  | some entry =>
    have hkept : s.ip2eth ip = some entry := (Option.filter_eq_some_iff.mp hmapped).1
    simp [gate, hop, hmapped, hkept, hheld]

/-- Every call moves the queue of every next hop as `gateOps` says. -/
theorem step_gate (op : Op) :
    GatedQueue.machine.run (s.gate ip passed) (gateOps ip s op) =
      (s.step op).gate ip (passed ++ sentFor ip s op) := by
  cases op with
  | sendDatagram dgram nextHop => exact gate_sendDatagram hown ip passed dgram nextHop
  | recvFrame frame => exact gate_recvFrame hown ip passed frame
  | tick ms => exact gate_tick ip passed ms

end Gate

theorem flatMap_gateOps (s : NetworkInterface) (ip : UInt32) (op : Op) :
    (gateOps ip s op).flatMap GatedQueue.putBy = givenFor ip op := by
  cases op with
  | sendDatagram dgram nextHop => simp [gateOps, GatedQueue.putBy, List.flatMap_map]
  | recvFrame frame =>
    simp only [gateOps, givenFor]
    split <;> rfl
  | tick ms =>
    simp only [gateOps, givenFor]
    split <;> rfl

/-- The run of the interface is a run of the queue of each next hop. -/
theorem run_gate {s : NetworkInterface} {own : UInt32} (hown : s.ipAddress.ipv4 = some own)
    (ip : UInt32) (passed : List BufferList) (ops : List Op) :
    GatedQueue.machine.run (s.gate ip passed) (calls.collect (gateOps ip) s ops) =
      (calls.run s ops).gate ip (passed ++ calls.collect (sentFor ip) s ops) := by
  induction ops using List.reverseRecOn with
  | nil => simp
  | append_singleton past op ih =>
    have hstill : (calls.run s past).ipAddress.ipv4 = some own := by rw [run_ipAddress, hown]
    rw [Machine.collect_snoc, Machine.run_append, ih, step_gate hstill, Machine.run_snoc,
      Machine.collect_snoc, List.append_assoc]
    rfl

/-- Calls of all kinds have led to this state. -/
def Reached (s : NetworkInterface) : Prop := ∃ eth own ops, s = calls.run (new eth own) ops

section Reached
variable {s : NetworkInterface} (h : s.Reached) {own : UInt32} (hown : s.ipAddress.ipv4 = some own)
include h hown

/-- Nothing is held for a next hop whose address is known. -/
theorem Reached.held_eq_nil {ip : UInt32} (hknown : (s.ip2eth ip).isSome = true) :
    (s.notSentDgrams ip).getD [] = [] := by
  obtain ⟨eth, address, ops, rfl⟩ := h
  have hnumber : (new eth address).ipAddress.ipv4 = some own := by rw [← hown, run_ipAddress]
  have hstart : (new eth address).gate ip [] = .start := rfl
  have hheld := GatedQueue.held_eq_nil_of_isOpen (q := .start) (nomatch ·)
    (calls.collect (gateOps ip) (new eth address) ops)
  rw [← hstart, run_gate hnumber] at hheld
  exact hheld hknown

/-- From any state on, the payloads put out for a next hop, followed by those held for it in the
end, are those held for it at first, followed by the serialized datagrams given for it. -/
theorem Reached.sent_in_order (ip : UInt32) (ops : List Op) :
    calls.collect (sentFor ip) s ops ++ ((calls.run s ops).notSentDgrams ip).getD [] =
      (s.notSentDgrams ip).getD [] ++ ops.flatMap (givenFor ip) := by
  have hgate := congrArg (fun q => q.passed ++ q.held) (run_gate hown ip [] ops)
  have hstart : (s.gate ip []).isOpen = true → (s.gate ip []).held = [] := h.held_eq_nil hown
  rw [GatedQueue.passed_append_held hstart,
    calls.flatMap_collect (fun s op => flatMap_gateOps s ip op)] at hgate
  exact hgate.symm

end Reached

/-- The IPv4 payloads put out for a next hop, followed by those still held for it, are the
serialized datagrams given for it, if the interface has an IPv4 address of its own. -/
theorem datagrams_in_order (eth : EthernetAddress) (address : Address) {own : UInt32}
    (hown : address.ipv4 = some own) (ip : UInt32) (ops : List Op) :
    calls.collect (sentFor ip) (new eth address) ops ++
        ((calls.run (new eth address) ops).notSentDgrams ip).getD [] =
      ops.flatMap (givenFor ip) := by
  have hreached : (new eth address).Reached := ⟨eth, address, [], rfl⟩
  rw [hreached.sent_in_order hown]
  rfl

/-- One datagram waits for the address of its hop, a second one follows after the reply. -/
theorem datagrams_in_order_reply :
    let reply : ARPMessage := {
      opcode := ARPMessage.opcodeReply, senderIPAddress := 9
      senderEthernetAddress := #v[2, 2, 2, 2, 2, 2], targetIPAddress := 1 }
    let ops := [Op.sendDatagram { header := { len := 21 }, payload := [[7]] } ⟨some 9, 0⟩,
      .recvFrame ⟨⟨#v[1, 1, 1, 1, 1, 1], #v[2, 2, 2, 2, 2, 2], typeARP⟩,
        [reply.typeBytes ++ reply.addressBytes]⟩,
      .sendDatagram { header := { len := 20 } } ⟨some 9, 0⟩]
    calls.collect (sentFor 9) (new #v[1, 1, 1, 1, 1, 1] (.fromIPv4Numeric 1)) ops ++
        ((calls.run (new #v[1, 1, 1, 1, 1, 1] (.fromIPv4Numeric 1)) ops).notSentDgrams 9).getD [] =
      ops.flatMap (givenFor 9) :=
  datagrams_in_order _ (.fromIPv4Numeric 1) rfl 9 _

/-- Without such an address the request for the hop's cannot be written: the datagram is neither
put out nor held. -/
theorem datagram_lost :
    let ops := [Op.sendDatagram { header := { len := 20 } } ⟨some 9, 0⟩]
    let s := new #v[1, 1, 1, 1, 1, 1] ⟨none, 0⟩
    (∀ op ∈ ops, Serializes op) ∧ calls.collect (sentFor 9) s ops = [] ∧
      (calls.run s ops).notSentDgrams 9 = none ∧ (ops.flatMap (givenFor 9)).length = 1 := by
  intro ops s
  refine ⟨fun op hop => ?_, by decide +kernel, by decide +kernel, by decide +kernel⟩
  rw [List.mem_singleton.mp hop]
  exact ⟨_, rfl⟩

end NetworkInterface
end Sponge
