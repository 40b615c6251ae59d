import Mathlib.Logic.Function.Basic
import Sponge.Address
import Sponge.EthernetFrame
import Sponge.IPv4Datagram
import Sponge.Loops
import Sponge.MachineWords

/-!
# The network interface

The interface translates datagrams for a next hop to Ethernet frames, with the address
resolution protocol for the hops whose Ethernet address it does not know. A map is the partial
function it stores. The output queue is never drained here: it is everything the interface ever
emitted. Times are 64-bit words. A call that throws leaves behind what it has done until then.
-/
namespace Sponge
open MachineWords EthernetHeader

structure NetworkInterface where
  ethernetAddress : EthernetAddress
  ipAddress : Address
  framesOut : List EthernetFrame
  timePassed : ℕ
  ip2eth : UInt32 → Option (EthernetAddress × ℕ)
  notMappedIPAddress : UInt32 → Option ℕ
  notSentDgrams : UInt32 → Option (List BufferList)

namespace NetworkInterface

def new (ethernetAddress : EthernetAddress) (ipAddress : Address) : NetworkInterface where
  ethernetAddress
  ipAddress
  framesOut := []
  timePassed := 0
  ip2eth := fun _ => none
  notMappedIPAddress := fun _ => none
  notSentDgrams := fun _ => none

def push (s : NetworkInterface) (frame : EthernetFrame) : NetworkInterface :=
  { s with framesOut := s.framesOut ++ [frame] }

def ipv4Frame (s : NetworkInterface) (dst : EthernetAddress) (payload : BufferList) :
    EthernetFrame :=
  { header := { src := s.ethernetAddress, dst, type := typeIPv4 }, payload }

def sendIPv4Frame (s : NetworkInterface) (dst : EthernetAddress) (payload : BufferList) :
    NetworkInterface :=
  s.push (s.ipv4Frame dst payload)

def arpRequest (s : NetworkInterface) (senderIP target : UInt32) : ARPMessage where
  senderIPAddress := senderIP
  senderEthernetAddress := s.ethernetAddress
  targetIPAddress := target
  opcode := ARPMessage.opcodeRequest

def arpReply (s : NetworkInterface) (senderIP targetIP : UInt32) (targetEth : EthernetAddress) :
    ARPMessage where
  senderIPAddress := senderIP
  senderEthernetAddress := s.ethernetAddress
  targetIPAddress := targetIP
  targetEthernetAddress := targetEth
  opcode := ARPMessage.opcodeReply

def sendARP (s : NetworkInterface) (dst : EthernetAddress) (message : ARPMessage) :
    Except String NetworkInterface := do
  let bytes ← message.serialize
  return s.push { header := { src := s.ethernetAddress, dst, type := typeARP }, payload := [bytes] }

def sendARPRequest (s : NetworkInterface) (target : UInt32) : Except String NetworkInterface := do
  let senderIP ← s.ipAddress.ipv4Numeric
  s.sendARP ethernetBroadcast (s.arpRequest senderIP target)

def sendARPReply (s : NetworkInterface) (targetIP : UInt32) (targetEth : EthernetAddress) :
    Except String NetworkInterface := do
  let senderIP ← s.ipAddress.ipv4Numeric
  s.sendARP targetEth (s.arpReply senderIP targetIP targetEth)

def sendNotSentDatagrams (s : NetworkInterface) (ip : UInt32) (eth : EthernetAddress) :
    NetworkInterface :=
  match s.notSentDgrams ip with
  | none => s
  | some dgrams =>
    let s := dgrams.foldl (fun s payload => s.sendIPv4Frame eth payload) s
    { s with
      notSentDgrams := Function.update s.notSentDgrams ip none
      notMappedIPAddress := Function.update s.notMappedIPAddress ip none }

/-- A request for the address is to be sent: there was none, or five seconds have passed. -/
def isDue (s : NetworkInterface) (ip : UInt32) : Bool :=
  (s.notMappedIPAddress ip).all fun since => addMod 64 since 5000 < s.timePassed

def sendDatagram (s : NetworkInterface) (dgram : InternetDatagram) (nextHop : Address) :
    Outcome NetworkInterface NetworkInterface := do
  let nextHopIP ← leaving s nextHop.ipv4Numeric
  match s.ip2eth nextHopIP with
  | some (eth, _) => return s.sendIPv4Frame eth (← leaving s dgram.serialize)
  | none =>
    let it := s.notMappedIPAddress nextHopIP
    let s ← if s.isDue nextHopIP then leaving s (s.sendARPRequest nextHopIP) else pure s
    let s := if it = none then { s with
      notMappedIPAddress :=
        Function.update s.notMappedIPAddress nextHopIP (some s.timePassed) } else s
    let queue := (s.notSentDgrams nextHopIP).getD []
    -- the queue is there before the datagram is serialized
    let s := { s with
      notSentDgrams := Function.update s.notSentDgrams nextHopIP (some queue) }
    let bytes ← leaving s dgram.serialize
    return { s with
      notSentDgrams := Function.update s.notSentDgrams nextHopIP (some (queue ++ [bytes])) }

/-- The sender of an ARP message is noted. -/
def learn (s : NetworkInterface) (message : ARPMessage) : NetworkInterface :=
  { s with
    ip2eth := Function.update s.ip2eth message.senderIPAddress
      (some (message.senderEthernetAddress, s.timePassed)) }

/-- The own address is looked at only if the message is a request. -/
def answer (s : NetworkInterface) (message : ARPMessage) :
    Outcome NetworkInterface NetworkInterface :=
  if message.opcode = ARPMessage.opcodeRequest then do
    let ownIP ← leaving s s.ipAddress.ipv4Numeric
    if message.targetIPAddress = ownIP then
      leaving s (s.sendARPReply message.senderIPAddress message.senderEthernetAddress)
    else return s
  else return s

/-- What `recv_frame` does with an ARP message it could parse. -/
def recvARP (s : NetworkInterface) (message : ARPMessage) :
    Outcome NetworkInterface NetworkInterface := do
  let s ← (s.learn message).answer message
  return s.sendNotSentDatagrams message.senderIPAddress message.senderEthernetAddress

/-- The frame is for this interface. -/
def Accepts (s : NetworkInterface) (frame : EthernetFrame) : Prop :=
  frame.header.dst = ethernetBroadcast ∨ frame.header.dst = s.ethernetAddress

instance (s : NetworkInterface) (frame : EthernetFrame) : Decidable (s.Accepts frame) :=
  inferInstanceAs (Decidable (_ ∨ _))

def recvFrame (s : NetworkInterface) (frame : EthernetFrame) :
    Outcome NetworkInterface (Option InternetDatagram × NetworkInterface) :=
  if s.Accepts frame then
    if frame.header.type = typeARP then do
      let r := ARPMessage.parse {} (← leaving s frame.payload.toBuffer)
      if r.1 = .noError then return (none, ← s.recvARP r.2) else return (none, s)
    else if frame.header.type = typeIPv4 then do
      let r := IPv4Datagram.parse {} (← leaving s frame.payload.toBuffer)
      if r.1 = .noError then return (some r.2, s) else return (none, s)
    else .ok (none, s)
  else .ok (none, s)

def tick (s : NetworkInterface) (ms : ℕ) : NetworkInterface :=
  let s := { s with timePassed := addMod 64 s.timePassed ms }
  { s with
    ip2eth := fun ip => (s.ip2eth ip).filter fun entry =>
      !decide (addMod 64 entry.2 30000 < s.timePassed) }

/-- The frame an ARP message goes out in. -/
def arpFrame (s : NetworkInterface) (dst : EthernetAddress) (message : ARPMessage) :
    EthernetFrame :=
  { header := { src := s.ethernetAddress, dst, type := typeARP }
    payload := [message.typeBytes ++ message.addressBytes] }

theorem sendARP_eq (s : NetworkInterface) (dst : EthernetAddress) {message : ARPMessage}
    (h : message.supported = true) :
    s.sendARP dst message =
      .ok { s with framesOut := s.framesOut ++ [s.arpFrame dst message] } := by
  rw [sendARP, ARPMessage.serialize_eq h]
  rfl

theorem sendARPRequest_eq (s : NetworkInterface) {own : UInt32} (hown : s.ipAddress.ipv4 = some own)
    (target : UInt32) : s.sendARPRequest target = .ok { s with
      framesOut := s.framesOut ++ [s.arpFrame ethernetBroadcast (s.arpRequest own target)] } := by
  rw [sendARPRequest, Address.ipv4Numeric_eq hown]
  exact s.sendARP_eq ethernetBroadcast (show (s.arpRequest own target).supported = true from rfl)

theorem sendARPReply_eq (s : NetworkInterface) {own : UInt32} (hown : s.ipAddress.ipv4 = some own)
    (targetIP : UInt32) (targetEth : EthernetAddress) :
    s.sendARPReply targetIP targetEth = .ok { s with
      framesOut := s.framesOut ++ [s.arpFrame targetEth (s.arpReply own targetIP targetEth)] } := by
  rw [sendARPReply, Address.ipv4Numeric_eq hown]
  exact s.sendARP_eq targetEth
    (show (s.arpReply own targetIP targetEth).supported = true from rfl)

theorem foldl_sendIPv4Frame (s : NetworkInterface) (eth : EthernetAddress)
    (payloads : List BufferList) :
    payloads.foldl (fun s payload => s.sendIPv4Frame eth payload) s =
      { s with framesOut := s.framesOut ++ payloads.map (s.ipv4Frame eth) } := by
  induction payloads generalizing s with
  | nil => simp
  | cons payload payloads ih =>
    rw [List.foldl_cons, ih]
    simp [sendIPv4Frame, push, ipv4Frame]

/-- The pending requests after the flush, which looks at them only if something is held. -/
def pendingAfter (s : NetworkInterface) (ip : UInt32) : UInt32 → Option ℕ :=
  if (s.notSentDgrams ip).isSome then Function.update s.notMappedIPAddress ip none
  else s.notMappedIPAddress

/-- The flush sends what is held for the address and forgets the request. -/
theorem sendNotSentDatagrams_eq (s : NetworkInterface) (ip : UInt32) (eth : EthernetAddress) :
    s.sendNotSentDatagrams ip eth = { s with
      framesOut := s.framesOut ++ ((s.notSentDgrams ip).getD []).map (s.ipv4Frame eth)
      notSentDgrams := Function.update s.notSentDgrams ip none
      notMappedIPAddress := s.pendingAfter ip } := by
  rw [sendNotSentDatagrams, pendingAfter]
  cases hheld : s.notSentDgrams ip with
  | none =>
    rw [← hheld, Function.update_eq_self, hheld]
    simp
  | some payloads => simp only [foldl_sendIPv4Frame, Option.getD_some, Option.isSome_some, if_true]

section SendDatagram
variable (s : NetworkInterface) {dgram : InternetDatagram} {nextHop : Address} {ip : UInt32}
  {bytes : BufferList}

variable (dgram) in
theorem sendDatagram_of_not_ipv4 (hhop : nextHop.ipv4 = none) :
    ∃ message, s.sendDatagram dgram nextHop = .error (message, s) := by
  simp [sendDatagram, Address.ipv4Numeric, hhop, bind, Except.bind]

theorem sendDatagram_of_mapped (hhop : nextHop.ipv4 = some ip)
    (hbytes : dgram.serialize = .ok bytes) {eth : EthernetAddress} {since : ℕ}
    (hmapped : s.ip2eth ip = some (eth, since)) :
    s.sendDatagram dgram nextHop =
      .ok { s with framesOut := s.framesOut ++ [s.ipv4Frame eth bytes] } := by
  simp [sendDatagram, Address.ipv4Numeric_eq hhop, hmapped, hbytes, bind, Except.bind, pure,
    Except.pure, sendIPv4Frame, push]

/-- A request is due, and the interface has no IPv4 address to write into it. -/
def Mute (ip : UInt32) : Prop := s.isDue ip = true ∧ s.ipAddress.ipv4 = none

instance (ip : UInt32) : Decidable (s.Mute ip) := inferInstanceAs (Decidable (_ ∧ _))

variable {s} in
theorem not_mute {own : UInt32} (hown : s.ipAddress.ipv4 = some own) : ¬ s.Mute ip := by
  rintro ⟨-, hnone⟩
  rw [hown] at hnone
  cases hnone

variable {s} in
theorem mute_of_not_pending (hown : s.ipAddress.ipv4 = none)
    (hpending : s.notMappedIPAddress ip = none) : s.Mute ip := by
  refine ⟨?_, hown⟩
  rw [isDue, hpending]
  rfl

variable (dgram) in
theorem sendDatagram_of_mute (hhop : nextHop.ipv4 = some ip) (hmapped : s.ip2eth ip = none)
    (hmute : s.Mute ip) : ∃ message, s.sendDatagram dgram nextHop = .error (message, s) := by
  simp [sendDatagram, sendARPRequest, Address.ipv4Numeric, hhop, hmapped, hmute.1, hmute.2, bind,
    Except.bind]

/-- The requests that go out with a datagram for an unknown address: at most one. -/
def requests (ip : UInt32) : List EthernetFrame :=
  if s.isDue ip then
    s.ipAddress.ipv4.toList.map fun own => s.arpFrame ethernetBroadcast (s.arpRequest own ip)
  else []

/-- The interface with the request for the address noted and a queue for it. -/
def awaiting (ip : UInt32) (queue : List BufferList) : NetworkInterface :=
  { s with
    framesOut := s.framesOut ++ s.requests ip
    notMappedIPAddress := if s.notMappedIPAddress ip = none then
      Function.update s.notMappedIPAddress ip (some s.timePassed) else s.notMappedIPAddress
    notSentDgrams := Function.update s.notSentDgrams ip (some queue) }

theorem sendDatagram_eq_of_not_mapped (hhop : nextHop.ipv4 = some ip) (hmapped : s.ip2eth ip = none)
    (hmute : ¬ s.Mute ip) : s.sendDatagram dgram nextHop =
      (leaving (s.awaiting ip ((s.notSentDgrams ip).getD [])) dgram.serialize).map fun bytes =>
        s.awaiting ip ((s.notSentDgrams ip).getD [] ++ [bytes]) := by
  rw [sendDatagram, Address.ipv4Numeric_eq hhop]
  simp only [leaving_ok, bind, Except.bind, hmapped]
  cases hdue : s.isDue ip with
  | false =>
    have hpending : s.notMappedIPAddress ip ≠ none := by
      intro hnone
      rw [isDue, hnone] at hdue
      cases hdue
    cases dgram.serialize <;>
      simp [awaiting, requests, hdue, hpending, pure, Except.pure, Except.map]
  | true =>
    obtain ⟨own, hown⟩ : ∃ own, s.ipAddress.ipv4 = some own := by
      rw [← Option.ne_none_iff_exists']
      exact fun hnone => hmute ⟨hdue, hnone⟩
    rw [if_pos rfl, s.sendARPRequest_eq hown]
    by_cases hpending : s.notMappedIPAddress ip = none <;> cases dgram.serialize <;>
      simp [awaiting, requests, hdue, hown, hpending, pure, Except.pure, Except.map]

theorem sendDatagram_of_not_mapped (hhop : nextHop.ipv4 = some ip)
    (hbytes : dgram.serialize = .ok bytes) (hmapped : s.ip2eth ip = none) (hmute : ¬ s.Mute ip) :
    s.sendDatagram dgram nextHop =
      .ok (s.awaiting ip ((s.notSentDgrams ip).getD [] ++ [bytes])) := by
  rw [s.sendDatagram_eq_of_not_mapped hhop hmapped hmute, hbytes]
  rfl

theorem sendDatagram_of_serializes {own : UInt32} (hown : s.ipAddress.ipv4 = some own)
    (hhop : nextHop.ipv4 = some ip) (hbytes : dgram.serialize = .ok bytes) :
    ∃ t, s.sendDatagram dgram nextHop = .ok t := by
  cases hmapped : s.ip2eth ip with
  | some entry => exact ⟨_, s.sendDatagram_of_mapped hhop hbytes hmapped⟩
  | none => exact ⟨_, s.sendDatagram_of_not_mapped hhop hbytes hmapped (not_mute hown)⟩

theorem sendDatagram_of_throws {message : String} (hthrows : dgram.serialize = .error message) :
    ∃ e, s.sendDatagram dgram nextHop = .error e := by
  cases hhop : nextHop.ipv4 with
  | none =>
    obtain ⟨message, heq⟩ := s.sendDatagram_of_not_ipv4 dgram hhop
    exact ⟨_, heq⟩
  | some ip =>
    cases hmapped : s.ip2eth ip with
    | some entry =>
      simp [sendDatagram, Address.ipv4Numeric_eq hhop, hmapped, hthrows, bind, Except.bind]
    | none =>
      by_cases hmute : s.Mute ip
      · obtain ⟨message, heq⟩ := s.sendDatagram_of_mute dgram hhop hmapped hmute
        exact ⟨_, heq⟩
      · rw [s.sendDatagram_eq_of_not_mapped hhop hmapped hmute, hthrows]
        exact ⟨_, rfl⟩

end SendDatagram

section RecvFrame
variable (s : NetworkInterface) {frame : EthernetFrame}

/-- The message asks for an address, and the interface has no IPv4 address to compare it with. -/
def Baffles (message : ARPMessage) : Prop :=
  message.opcode = ARPMessage.opcodeRequest ∧ s.ipAddress.ipv4 = none

instance (message : ARPMessage) : Decidable (s.Baffles message) :=
  inferInstanceAs (Decidable (_ ∧ _))

variable {s} in
theorem not_baffles {own : UInt32} (hown : s.ipAddress.ipv4 = some own) (message : ARPMessage) :
    ¬ s.Baffles message := by
  rintro ⟨-, hnone⟩
  rw [hown] at hnone
  cases hnone

theorem answer_of_baffles {message : ARPMessage} (h : s.Baffles message) :
    ∃ text, s.answer message = .error (text, s) := by
  simp [answer, h.1, Address.ipv4Numeric, h.2, bind, Except.bind]

theorem recvARP_of_baffles {message : ARPMessage} (h : s.Baffles message) :
    ∃ text, s.recvARP message = .error (text, s.learn message) := by
  obtain ⟨text, hthrows⟩ := (s.learn message).answer_of_baffles h
  exact ⟨text, by rw [recvARP, hthrows]; rfl⟩

/-- The replies to an ARP message: at most one. -/
def replies (message : ARPMessage) : List EthernetFrame :=
  if message.opcode = ARPMessage.opcodeRequest ∧
      s.ipAddress.ipv4 = some message.targetIPAddress then
    [s.arpFrame message.senderEthernetAddress (s.arpReply message.targetIPAddress
      message.senderIPAddress message.senderEthernetAddress)] else []

theorem answer_eq {message : ARPMessage} (h : ¬ s.Baffles message) :
    s.answer message = .ok { s with framesOut := s.framesOut ++ s.replies message } := by
  rw [answer, replies]
  by_cases hask : message.opcode = ARPMessage.opcodeRequest
  · obtain ⟨own, hown⟩ : ∃ own, s.ipAddress.ipv4 = some own := by
      rw [← Option.ne_none_iff_exists']
      exact fun hnone => h ⟨hask, hnone⟩
    rw [if_pos hask, Address.ipv4Numeric_eq hown, hown]
    by_cases htarget : message.targetIPAddress = own
    · subst htarget
      simp [hask, s.sendARPReply_eq hown, bind, Except.bind]
    · simp [htarget, Ne.symm htarget, bind, Except.bind, pure, Except.pure]
  · simp [hask, pure, Except.pure]

theorem recvARP_eq {message : ARPMessage} (h : ¬ s.Baffles message) :
    s.recvARP message = .ok { s.learn message with
      framesOut := s.framesOut ++ s.replies message ++
        ((s.notSentDgrams message.senderIPAddress).getD []).map
          (s.ipv4Frame message.senderEthernetAddress)
      notSentDgrams := Function.update s.notSentDgrams message.senderIPAddress none
      notMappedIPAddress := s.pendingAfter message.senderIPAddress } := by
  rw [recvARP, (s.learn message).answer_eq h]
  exact congrArg Except.ok (sendNotSentDatagrams_eq _ _ _)

/-- The ARP message the interface takes from a frame. -/
def heard (frame : EthernetFrame) : Option ARPMessage :=
  if s.Accepts frame ∧ frame.header.type = typeARP then
    match frame.payload.toBuffer with
    | .ok buffer =>
      let r := ARPMessage.parse {} buffer
      if r.1 = .noError then some r.2 else none
    | .error _ => none
  else none

theorem recvFrame_of_heard {message : ARPMessage} (h : s.heard frame = some message) :
    s.recvFrame frame = (s.recvARP message).map fun s => (none, s) := by
  rw [heard] at h
  split at h
  · next hfor =>
    cases hbuffer : frame.payload.toBuffer with
    | error e => simp [hbuffer] at h
    | ok buffer =>
      simp only [hbuffer] at h
      split at h
      · next hok =>
        cases h
        rw [recvFrame, if_pos hfor.1, if_pos hfor.2, hbuffer]
        simp only [leaving_ok, bind, Except.bind, hok, if_true]
        cases s.recvARP (ARPMessage.parse {} buffer).2 <;> rfl
      · cases h
  · cases h

/-- The frame holds a datagram for this interface. -/
structure Delivers (frame : EthernetFrame) (dgram : InternetDatagram) : Prop where
  accepts : s.Accepts frame
  type_eq : frame.header.type = typeIPv4
  parses : ∃ buffer, frame.payload.toBuffer = .ok buffer ∧
    IPv4Datagram.parse {} buffer = (.noError, dgram)

/-- Any frame without an ARP message leaves the interface as it is: the call throws, does nothing,
or hands a datagram up. -/
theorem recvFrame_of_not_heard (h : s.heard frame = none) :
    (∃ message, frame.payload.toBuffer = .error message ∧
        s.recvFrame frame = .error (message, s)) ∨
      s.recvFrame frame = .ok (none, s) ∨
      ∃ dgram, s.Delivers frame dgram ∧ s.recvFrame frame = .ok (some dgram, s) := by
  rw [recvFrame]
  split
  · next hfor =>
    split
    · next harp =>
      rw [heard, if_pos ⟨hfor, harp⟩] at h
      cases hbuffer : frame.payload.toBuffer with
      | error e => exact Or.inl ⟨e, rfl, rfl⟩
      | ok buffer =>
        simp only [hbuffer] at h
        split at h
        · cases h
        · next hbad =>
          simp only [leaving_ok, bind, Except.bind, if_neg hbad]
          exact Or.inr (Or.inl rfl)
    · split
      · next hipv4 =>
        cases hbuffer : frame.payload.toBuffer with
        | error e => exact Or.inl ⟨e, rfl, rfl⟩
        | ok buffer =>
          simp only [leaving_ok, bind, Except.bind]
          split
          · next hok =>
            exact Or.inr (Or.inr ⟨_, ⟨hfor, hipv4, buffer, hbuffer, Prod.ext hok rfl⟩, rfl⟩)
          · exact Or.inr (Or.inl rfl)
      · exact Or.inr (Or.inl rfl)
  · exact Or.inr (Or.inl rfl)

theorem Delivers.recvFrame_eq {dgram : InternetDatagram} (h : s.Delivers frame dgram) :
    s.recvFrame frame = .ok (some dgram, s) := by
  obtain ⟨haccepts, htype, buffer, hbuffer, hparse⟩ := h
  rw [recvFrame, if_pos haccepts, htype, if_neg (by decide), if_pos rfl, hbuffer]
  simp only [leaving_ok, bind, Except.bind, hparse]
  rfl

theorem recvFrame_some {dgram : InternetDatagram} {t : NetworkInterface}
    (h : s.recvFrame frame = .ok (some dgram, t)) : t = s ∧ s.Delivers frame dgram := by
  cases hheard : s.heard frame with
  | some message =>
    rw [recvFrame_of_heard s hheard] at h
    by_cases hbaffles : s.Baffles message
    · obtain ⟨text, heq⟩ := s.recvARP_of_baffles hbaffles
      rw [heq] at h
      cases h
    · rw [s.recvARP_eq hbaffles] at h
      cases h
  | none =>
    rcases s.recvFrame_of_not_heard hheard with ⟨e, -, heq⟩ | heq | ⟨d, hdelivers, heq⟩
    · rw [heq] at h
      cases h
    · rw [heq] at h
      cases h
    · rw [heq] at h
      cases h
      exact ⟨rfl, hdelivers⟩

/-- A frame whose payload is one buffer never makes `recvFrame` throw, if the own address is one
of IPv4. -/
theorem recvFrame_isOk {own : UInt32} (hown : s.ipAddress.ipv4 = some own)
    (header : EthernetHeader) (bytes : Buffer) :
    ∃ r t, s.recvFrame ⟨header, [bytes]⟩ = .ok (r, t) := by
  cases hheard : s.heard ⟨header, [bytes]⟩ with
  | some message =>
    rw [s.recvFrame_of_heard hheard, s.recvARP_eq (not_baffles hown message)]
    exact ⟨_, _, rfl⟩
  | none =>
    rcases s.recvFrame_of_not_heard hheard with ⟨message, hbuffer, -⟩ | heq | ⟨dgram, -, heq⟩
    · cases hbuffer
    · exact ⟨_, _, heq⟩
    · exact ⟨_, _, heq⟩

variable {s} in
theorem Delivers.size_eq {dgram : InternetDatagram} (h : s.Delivers frame dgram) :
    dgram.payload.size = dgram.header.payloadLength.toNat := by
  obtain ⟨-, -, buffer, -, hparse⟩ := h
  exact IPv4Datagram.size_eq_of_parse hparse

end RecvFrame

end NetworkInterface
end Sponge
