import Sponge.NetworkInterface
import Sponge.Runs

/-!
# Calls on the network interface

What each call does, case by case, whether it returns or throws. A datagram is held back by an
unknown address only if the request for the address can be written, which takes an IPv4 address of
the interface's own.
-/
namespace Sponge
open EthernetHeader

namespace NetworkInterface

inductive Op where
  | sendDatagram (dgram : InternetDatagram) (nextHop : Address)
  | recvFrame (frame : EthernetFrame)
  | tick (ms : ℕ)

def call (s : NetworkInterface) : Op → Outcome NetworkInterface NetworkInterface
  | .sendDatagram dgram nextHop => s.sendDatagram dgram nextHop
  | .recvFrame frame => (s.recvFrame frame).map Prod.snd
  | .tick ms => .ok (s.tick ms)

/-- The interface after any call. -/
def step (s : NetworkInterface) (op : Op) : NetworkInterface := (s.call op).state

def Serializes : Op → Prop
  | .sendDatagram dgram _ => ∃ bytes, dgram.serialize = .ok bytes
  | _ => True

/-- The next hop for which a call sends datagrams: the one it is given, or the sender of the ARP
message it takes in. -/
def hop (s : NetworkInterface) : Op → Option UInt32
  | .sendDatagram _ nextHop => nextHop.ipv4
  | .recvFrame frame => (s.heard frame).map (·.senderIPAddress)
  | .tick _ => none

/-- The frames a call puts out. -/
def emits (s : NetworkInterface) (op : Op) : List EthernetFrame :=
  (s.step op).framesOut.drop s.framesOut.length

def Op.ms : Op → ℕ
  | .tick ms => ms
  | .sendDatagram _ _ | .recvFrame _ => 0

def elapsed (ops : List Op) : ℕ := (ops.map Op.ms).sum

/-- The times noted are past, and requests are pending exactly for the addresses with a queue; so
the flush finds the entry it erases. Nothing is pending without an IPv4 address to ask with. -/
structure Regular (s : NetworkInterface) : Prop where
  known_le : ∀ ip entry, s.ip2eth ip = some entry → entry.2 ≤ s.timePassed
  asked_le : ∀ ip since, s.notMappedIPAddress ip = some since → since ≤ s.timePassed
  paired : ∀ ip, s.notSentDgrams ip = none ↔ s.notMappedIPAddress ip = none
  numbered : s.ipAddress.ipv4 = none → ∀ ip, s.notSentDgrams ip = none

/-- All calls; the guard holds until the clock comes near its end. -/
def calls : Machine NetworkInterface Op :=
  ⟨step, fun s op => s.Regular ∧ s.timePassed + op.ms + 30000 < 2 ^ 64⟩

section Step
variable {s t : NetworkInterface} {dgram : InternetDatagram} {nextHop : Address} {ip : UInt32}
  {frame : EthernetFrame}

theorem step_sendDatagram (h : s.sendDatagram dgram nextHop = .ok t) :
    s.step (.sendDatagram dgram nextHop) = t := by
  rw [step, call, h]
  rfl

theorem step_recvFrame {r : Option InternetDatagram} (h : s.recvFrame frame = .ok (r, t)) :
    s.step (.recvFrame frame) = t := by
  rw [step, call, h]
  rfl

theorem step_of_not_ipv4 (hhop : nextHop.ipv4 = none) :
    s.step (.sendDatagram dgram nextHop) = s := by
  obtain ⟨message, hthrows⟩ := s.sendDatagram_of_not_ipv4 dgram hhop
  rw [step, call, hthrows]
  rfl

theorem step_of_mapped (hhop : nextHop.ipv4 = some ip) {eth : EthernetAddress} {since : ℕ}
    (hmapped : s.ip2eth ip = some (eth, since)) : s.step (.sendDatagram dgram nextHop) = { s with
      framesOut := s.framesOut ++ dgram.serialize.toOption.toList.map (s.ipv4Frame eth) } := by
  cases hbytes : dgram.serialize with
  | ok bytes => exact step_sendDatagram (s.sendDatagram_of_mapped hhop hbytes hmapped)
  | error message =>
    simp [step, call, sendDatagram, Address.ipv4Numeric_eq hhop, hmapped, hbytes, bind, Except.bind,
      Except.toOption]

theorem step_of_mute (hhop : nextHop.ipv4 = some ip) (hmapped : s.ip2eth ip = none)
    (hmute : s.Mute ip) : s.step (.sendDatagram dgram nextHop) = s := by
  obtain ⟨message, hthrows⟩ := s.sendDatagram_of_mute dgram hhop hmapped hmute
  rw [step, call, hthrows]
  rfl

theorem step_of_not_mapped (hhop : nextHop.ipv4 = some ip) (hmapped : s.ip2eth ip = none)
    (hmute : ¬ s.Mute ip) : s.step (.sendDatagram dgram nextHop) =
      s.awaiting ip ((s.notSentDgrams ip).getD [] ++ dgram.serialize.toOption.toList) := by
  rw [step, call, s.sendDatagram_eq_of_not_mapped hhop hmapped hmute]
  cases dgram.serialize with
  | ok bytes => rfl
  | error message => exact congrArg (s.awaiting ip) (List.append_nil _).symm

theorem step_of_not_heard (h : s.heard frame = none) : s.step (.recvFrame frame) = s := by
  rcases s.recvFrame_of_not_heard h with ⟨message, -, heq⟩ | heq | ⟨dgram, -, heq⟩
  · rw [step, call, heq]
    rfl
  · exact step_recvFrame heq
  · exact step_recvFrame heq

variable {message : ARPMessage}

theorem step_of_baffles (h : s.heard frame = some message) (hbaffles : s.Baffles message) :
    s.step (.recvFrame frame) = s.learn message := by
  obtain ⟨text, hthrows⟩ := s.recvARP_of_baffles hbaffles
  rw [step, call, s.recvFrame_of_heard h, hthrows]
  rfl

theorem step_of_heard (h : s.heard frame = some message) (hbaffles : ¬ s.Baffles message) :
    s.step (.recvFrame frame) = { s.learn message with
      framesOut := s.framesOut ++ (s.replies message ++
        ((s.notSentDgrams message.senderIPAddress).getD []).map
          (s.ipv4Frame message.senderEthernetAddress))
      notSentDgrams := Function.update s.notSentDgrams message.senderIPAddress none
      notMappedIPAddress := s.pendingAfter message.senderIPAddress } := by
  rw [← List.append_assoc]
  exact step_recvFrame ((s.recvFrame_of_heard h).trans
    (congrArg (Except.map fun t => (none, t)) (s.recvARP_eq hbaffles)))

/-- The addresses of an interface stay. -/
theorem step_addresses (s : NetworkInterface) (op : Op) :
    (s.step op).ipAddress = s.ipAddress ∧ (s.step op).ethernetAddress = s.ethernetAddress := by
  cases op with
  | sendDatagram dgram nextHop =>
    cases hhop : nextHop.ipv4 with
    | none => simp [step_of_not_ipv4 hhop]
    | some target =>
      cases hmapped : s.ip2eth target with
      | some entry => simp [step_of_mapped hhop hmapped]
      | none =>
        by_cases hmute : s.Mute target
        · simp [step_of_mute hhop hmapped hmute]
        · simp [step_of_not_mapped hhop hmapped hmute, awaiting]
  | recvFrame frame =>
    cases hheard : s.heard frame with
    | none => simp [step_of_not_heard hheard]
    | some message =>
      by_cases hbaffles : s.Baffles message
      · simp [step_of_baffles hheard hbaffles, learn]
      · simp [step_of_heard hheard hbaffles, learn]
  | tick ms => exact ⟨rfl, rfl⟩

theorem ipAddress_of_sendDatagram (h : s.sendDatagram dgram nextHop = .ok t) :
    t.ipAddress = s.ipAddress := by
  rw [← step_sendDatagram h]
  exact (step_addresses s _).1

@[simp] theorem run_ipAddress (s : NetworkInterface) (ops : List Op) :
    (calls.run s ops).ipAddress = s.ipAddress := by
  induction ops using List.reverseRecOn with
  | nil => rfl
  | append_singleton past op ih =>
    rw [calls.run_snoc]
    exact (step_addresses _ op).1.trans ih

/-- The frames a call puts out are behind those put out before. -/
theorem framesOut_step (s : NetworkInterface) (op : Op) :
    (s.step op).framesOut = s.framesOut ++ s.emits op := by
  obtain ⟨new, hnew⟩ : ∃ new, (s.step op).framesOut = s.framesOut ++ new := by
    cases op with
    | sendDatagram dgram nextHop =>
      cases hhop : nextHop.ipv4 with
      | none => exact ⟨[], by rw [step_of_not_ipv4 hhop, List.append_nil]⟩
      | some target =>
        cases hmapped : s.ip2eth target with
        | some entry => exact ⟨_, congrArg framesOut (step_of_mapped hhop hmapped)⟩
        | none =>
          by_cases hmute : s.Mute target
          · exact ⟨[], by rw [step_of_mute hhop hmapped hmute, List.append_nil]⟩
          · exact ⟨_, congrArg framesOut (step_of_not_mapped hhop hmapped hmute)⟩
    | recvFrame frame =>
      cases hheard : s.heard frame with
      | none => exact ⟨[], by rw [step_of_not_heard hheard, List.append_nil]⟩
      | some message =>
        by_cases hbaffles : s.Baffles message
        · exact ⟨[], by rw [step_of_baffles hheard hbaffles, List.append_nil, learn]⟩
        · exact ⟨_, congrArg framesOut (step_of_heard hheard hbaffles)⟩
    | tick ms => exact ⟨[], (List.append_nil _).symm⟩
  rw [emits, hnew, List.drop_left]

section Emits
variable {op : Op} {new : List EthernetFrame}

theorem emits_eq (h : (s.step op).framesOut = s.framesOut ++ new) : s.emits op = new := by
  rw [emits, h, List.drop_left]

theorem emits_of_not_ipv4 (hhop : nextHop.ipv4 = none) :
    s.emits (.sendDatagram dgram nextHop) = [] :=
  emits_eq (by rw [step_of_not_ipv4 hhop, List.append_nil])

theorem emits_of_mapped (hhop : nextHop.ipv4 = some ip) {eth : EthernetAddress} {since : ℕ}
    (hmapped : s.ip2eth ip = some (eth, since)) : s.emits (.sendDatagram dgram nextHop) =
      dgram.serialize.toOption.toList.map (s.ipv4Frame eth) :=
  emits_eq (congrArg framesOut (step_of_mapped hhop hmapped))

/-- A request that cannot be written is none. -/
theorem emits_of_not_mapped (hhop : nextHop.ipv4 = some ip) (hmapped : s.ip2eth ip = none) :
    s.emits (.sendDatagram dgram nextHop) = s.requests ip := by
  by_cases hmute : s.Mute ip
  · refine emits_eq ?_
    rw [step_of_mute hhop hmapped hmute, requests, hmute.2]
    simp
  · exact emits_eq (congrArg framesOut (step_of_not_mapped hhop hmapped hmute))

theorem emits_of_baffles (h : s.heard frame = some message) (hbaffles : s.Baffles message) :
    s.emits (.recvFrame frame) = [] :=
  emits_eq (by rw [step_of_baffles h hbaffles, List.append_nil, learn])

theorem emits_of_heard (h : s.heard frame = some message) (hbaffles : ¬ s.Baffles message) :
    s.emits (.recvFrame frame) = s.replies message ++
      ((s.notSentDgrams message.senderIPAddress).getD []).map
        (s.ipv4Frame message.senderEthernetAddress) :=
  emits_eq (congrArg framesOut (step_of_heard h hbaffles))

theorem emits_of_not_heard (h : s.heard frame = none) : s.emits (.recvFrame frame) = [] :=
  emits_eq (by rw [step_of_not_heard h, List.append_nil])

theorem emits_tick (ms : ℕ) : s.emits (.tick ms) = [] := emits_eq (List.append_nil _).symm

theorem emits_of_not_hop (h : s.hop op = none) : s.emits op = [] := by
  cases op with
  | sendDatagram dgram nextHop => exact emits_of_not_ipv4 h
  | recvFrame frame => exact emits_of_not_heard (Option.map_eq_none_iff.mp h)
  | tick ms => exact emits_tick ms

end Emits
end Step

end NetworkInterface
end Sponge
