import Sponge.EthernetAdapter
import Sponge.FileDescriptor
import Sponge.TCPSender

/-!
# The datagram adapters

A socket reads and writes its segments through an adapter: over UDP, over IPv4 on a TUN device, over
IPv4 over Ethernet on a TAP device, and the first two also with random losses. The device is
the list of packets written to it; what a read returns is an argument.

`FdAdapter.Lawful` is what a socket relies on. The adapter never throws, and whatever one adapter
takes out of a packet of another is a segment that was given to that other one, up to the ports and
the checksum.
-/
namespace Sponge
open BigEndian EthernetHeader

namespace TCPSegment

/-- The same segment under other port numbers and with another checksum. -/
def Readdresses (seg orig : TCPSegment) : Prop :=
  ∃ sport dport cksum, seg = { orig with
    header.sport := sport, header.dport := dport, header.cksum := cksum }

/-- The segments an endpoint emits: no options, and no more than a full payload. -/
structure Ordinary (seg : TCPSegment) : Prop where
  doff_eq : seg.header.doff = 5
  payload_le : seg.payload.length ≤ maxPayloadSize

theorem Readdresses.ordinary {seg orig : TCPSegment} (h : seg.Readdresses orig)
    (horig : orig.Ordinary) : seg.Ordinary := by
  obtain ⟨sport, dport, cksum, rfl⟩ := h
  exact ⟨horig.doff_eq, horig.payload_le⟩

theorem Readdresses.cksum {seg orig : TCPSegment} (h : seg.Readdresses orig) (cksum : UInt16) :
    Readdresses { seg with header.cksum := cksum } orig := by
  obtain ⟨sport, dport, _, rfl⟩ := h
  exact ⟨sport, dport, cksum, rfl⟩

section Ordinary
variable {seg : TCPSegment}

theorem Ordinary.toNat_doff (h : seg.Ordinary) : seg.header.doff.toNat = 5 := by
  rw [h.doff_eq]
  rfl

theorem Ordinary.length_le (h : seg.Ordinary) :
    20 + 4 * seg.header.doff.toNat + seg.payload.length ≤ 65535 := by
  have hdoff := h.toNat_doff
  have hpayload := h.payload_le
  simp only [maxPayloadSize] at hpayload
  omega

theorem Ordinary.parse_wire (h : seg.Ordinary) {ps : UInt32} (hps : ps.toNat < 2 ^ 31) :
    TCPSegment.parse {} (seg.wire (seg.cksumFor ps)) ps =
      (.noError, { seg with header.cksum := seg.cksumFor ps }) := by
  have hdoff := h.toNat_doff
  have hlength := h.length_le
  exact TCPSegment.parse_wire {} seg (by omega) (by omega) (by omega) hps

end Ordinary
end TCPSegment

/-- An adapter with the state `α` and the configuration `κ`. A read of its device returns a `δ`,
which came over the wire as `bytes`; `noteRead` is what the descriptor notes of it, and `Fits` says
what the device may return. -/
structure FdAdapter (α κ δ : Type) where
  read : α → δ → Except String (Option TCPSegment × α)
  noteRead : FDWrapper → δ → FDWrapper
  write : α → TCPSegment → Except String α
  tick : α → ℕ → α
  configure : α → κ → α
  setListening : α → Bool → α
  bytes : δ → List Byte
  sent : α → List (List Byte)
  Fits : δ → Prop

/-- `Inv given a` holds of an adapter that was given the segments `given` to write. -/
structure FdAdapter.Lawful {α κ δ : Type} (A : FdAdapter α κ δ)
    (Inv : List TCPSegment → α → Prop) : Prop where
  read_ok : ∀ {given a d}, Inv given a → A.Fits d → ∃ seg a', A.read a d = .ok (seg, a')
  read : ∀ {given a a' d seg}, Inv given a → A.read a d = .ok (seg, a') → Inv given a'
  write : ∀ {given a seg}, Inv given a → seg.Ordinary →
    ∃ a', A.write a seg = .ok a' ∧ Inv (given ++ [seg]) a'
  tick : ∀ {given a} ms, Inv given a → Inv given (A.tick a ms)
  noteRead : ∀ w d, (A.noteRead w d).readCount = MachineWords.addMod 32 w.readCount 1
  received : ∀ {given a b b' d seg}, Inv given a → A.bytes d ∈ A.sent a →
    A.read b d = .ok (some seg, b') → ∃ orig ∈ given, seg.Readdresses orig

/-- The default limit of a read. -/
def sizeMax : ℕ := 2 ^ 64 - 1

section UDP

structure ReceivedDatagram where
  sourceAddress : Address
  payload : List Byte

/-- `UDPSocket::recv`, with what `recvfrom` returns. -/
def UDPSocket.recv (datagram : ReceivedDatagram) (mtu : ℕ) : Except String ReceivedDatagram :=
  if mtu < datagram.payload.length then .error "recvfrom (oversized datagram)" else .ok datagram

/-- The default of the argument of `recv`. -/
def UDPSocket.mtu : ℕ := 65536

/-- The socket is the list of datagrams sent from it, with their destinations. -/
structure TCPOverUDPSocketAdapter where
  cfg : FdAdapterConfig
  listen : Bool := false
  sock : List (Address × BufferList) := []

namespace TCPOverUDPSocketAdapter

def read (a : TCPOverUDPSocketAdapter) (received : ReceivedDatagram) :
    Except String (Option TCPSegment × TCPOverUDPSocketAdapter) := do
  let datagram ← UDPSocket.recv received UDPSocket.mtu
  if !a.listen && decide (datagram.sourceAddress ≠ a.cfg.destination) then return (none, a)
  let r := TCPSegment.parse {} datagram.payload 0
  if r.1 ≠ .noError then return (none, a)
  if a.listen then
    if r.2.header.syn && !r.2.header.rst then
      return (some r.2, { a with cfg.destination := datagram.sourceAddress, listen := false })
    else return (none, a)
  return (some r.2, a)

def write (a : TCPOverUDPSocketAdapter) (seg : TCPSegment) :
    Except String TCPOverUDPSocketAdapter := do
  let seg := { seg with
    header.sport := a.cfg.source.port, header.dport := a.cfg.destination.port }
  let payload ← seg.serialize 0
  return { a with sock := a.sock ++ [(a.cfg.destination, payload)] }

def adapter : FdAdapter TCPOverUDPSocketAdapter FdAdapterConfig ReceivedDatagram where
  read := read
  noteRead w _ := w.registerRead
  write := write
  tick a _ := a
  configure a cfg := { a with cfg }
  setListening a listen := { a with listen }
  bytes := ReceivedDatagram.payload
  sent a := a.sock.map fun d => d.2.concatenate
  Fits d := d.payload.length ≤ UDPSocket.mtu

/-- The payload of a datagram in which a segment was sent. -/
def Encodes (orig : TCPSegment) (b : List Byte) : Prop :=
  ∃ seg : TCPSegment, seg.Readdresses orig ∧ seg.Ordinary ∧ b = seg.wire (seg.cksumFor 0)

def Inv (given : List TCPSegment) (a : TCPOverUDPSocketAdapter) : Prop :=
  ∀ b ∈ adapter.sent a, ∃ orig ∈ given, Encodes orig b

variable {a a' : TCPOverUDPSocketAdapter} {received : ReceivedDatagram}

/-- A read leaves the socket alone, and a segment that is returned is what the payload says. -/
theorem read_eq_ok {seg : Option TCPSegment} (h : a.read received = .ok (seg, a')) :
    a'.sock = a.sock ∧
      ∀ s, seg = some s → TCPSegment.parse {} received.payload 0 = (.noError, s) := by
  obtain ⟨datagram, hrecv, h⟩ := bind_eq_ok h
  rw [UDPSocket.recv] at hrecv
  split at hrecv
  · cases hrecv
  · cases hrecv
    dsimp only at h
    split at h
    · cases h
      exact ⟨rfl, fun _ hs => by cases hs⟩
    · split at h
      · cases h
        exact ⟨rfl, fun _ hs => by cases hs⟩
      · next hparse =>
        have hfound : ∀ s, some (TCPSegment.parse {} received.payload 0).2 = some s →
            TCPSegment.parse {} received.payload 0 = (.noError, s) := by
          intro s hs
          exact Prod.ext (Decidable.not_not.mp hparse) (Option.some.inj hs)
        split at h
        · split at h
          · cases h
            exact ⟨rfl, hfound⟩
          · cases h
            exact ⟨rfl, fun _ hs => by cases hs⟩
        · cases h
          exact ⟨rfl, hfound⟩

theorem read_isOk (hfits : adapter.Fits received) (a : TCPOverUDPSocketAdapter) :
    ∃ seg a', a.read received = .ok (seg, a') := by
  have hrecv : UDPSocket.recv received UDPSocket.mtu = .ok received :=
    if_neg (Nat.not_lt.mpr hfits)
  simp only [read, hrecv, bind, Except.bind]
  repeat' split
  all_goals exact ⟨_, _, rfl⟩

theorem lawful : adapter.Lawful Inv where
  read_ok := fun _ hfits => read_isOk hfits _
  read := by
    intro given a a' d seg hinv hread
    simp only [Inv, adapter, (read_eq_ok hread).1]
    exact hinv
  write := by
    intro given a seg hinv hseg
    let stamped : TCPSegment := { seg with
      header.sport := a.cfg.source.port, header.dport := a.cfg.destination.port }
    have hstamped : stamped.Readdresses seg := ⟨_, _, seg.header.cksum, rfl⟩
    have hord := hstamped.ordinary hseg
    have hbytes := TCPSegment.serialize_eq stamped 0 (le_of_eq hord.toNat_doff.symm)
    refine ⟨_, by simp only [adapter, write, stamped] at hbytes ⊢; rw [hbytes]; rfl, ?_⟩
    intro b hb
    simp only [adapter, List.map_append, List.map_cons, List.map_nil, List.mem_append,
      List.mem_singleton] at hb
    rcases hb with hold | rfl
    · obtain ⟨orig, horig, henc⟩ := hinv b hold
      exact ⟨orig, List.mem_append_left _ horig, henc⟩
    · refine ⟨seg, List.mem_append_right _ (List.mem_singleton_self seg), stamped, hstamped, hord,
        ?_⟩
      exact stamped.concatenate_serialized _
  tick := fun _ hinv => hinv
  noteRead := fun _ _ => rfl
  received := by
    intro given a b b' d seg hinv harrives hread
    obtain ⟨orig, horig, sent, hsent, hord, hbytes⟩ := hinv _ harrives
    have hparse := (read_eq_ok hread).2 seg rfl
    change d.payload = _ at hbytes
    rw [hbytes, hord.parse_wire (by decide)] at hparse
    cases hparse
    exact ⟨orig, horig, hsent.cksum _⟩

end TCPOverUDPSocketAdapter
end UDP

namespace TCPOverIPv4Adapter

/-- The configured addresses are IPv4 ones. -/
structure HasAddresses (a : TCPOverIPv4Adapter) : Prop where
  source : ∃ x, a.cfg.source.ipv4 = some x
  destination : ∃ y, a.cfg.destination.ipv4 = some y

/-- The bytes of a datagram in which a segment was sent. -/
def Encodes (orig : TCPSegment) (b : List Byte) : Prop :=
  ∃ (x y : UInt32) (seg : TCPSegment) (bytes : BufferList), seg.Readdresses orig ∧ seg.Ordinary ∧
    (ipDatagram x y seg).serialize = .ok bytes ∧ b = bytes.concatenate

section Unwrap
variable {a a' : TCPOverIPv4Adapter} {seg orig : TCPSegment} {d : InternetDatagram}

theorem HasAddresses.concerns_isOk (h : a.HasAddresses) (d : InternetDatagram) :
    ∃ r, a.concerns d = .ok r := by
  obtain ⟨x, hx⟩ := h.source
  obtain ⟨y, hy⟩ := h.destination
  simp only [concerns, Address.ipv4Numeric_eq hx, Address.ipv4Numeric_eq hy, bind, Except.bind]
  repeat' split
  all_goals exact ⟨_, rfl⟩

theorem HasAddresses.takeSegment (h : a.HasAddresses) (d : InternetDatagram) (seg : TCPSegment) :
    (a.takeSegment d seg).2.HasAddresses := by
  rw [TCPOverIPv4Adapter.takeSegment]
  split
  · exact h
  · split
    · exact h
    · dsimp only
      split
      · split <;> exact ⟨⟨_, rfl⟩, ⟨_, rfl⟩⟩
      · split <;> exact h

/-- A datagram with its payload in one buffer never makes `unwrapTCPInIP` throw. -/
theorem HasAddresses.unwrapTCPInIP (h : a.HasAddresses) {buffer : Buffer}
    (hbuffer : d.payload.toBuffer = .ok buffer) :
    ∃ seg a', a.unwrapTCPInIP d = .ok (seg, a') ∧ a'.HasAddresses := by
  obtain ⟨r, hr⟩ := h.concerns_isOk d
  simp only [TCPOverIPv4Adapter.unwrapTCPInIP, hr, hbuffer, bind, Except.bind]
  split
  · exact ⟨_, _, rfl, h⟩
  · split
    · exact ⟨_, _, rfl, h⟩
    · split
      · exact ⟨_, _, rfl, h⟩
      · exact ⟨_, _, rfl, h.takeSegment d _⟩

theorem takeSegment_some {s : TCPSegment} (h : a.takeSegment d s = (some seg, a')) : seg = s := by
  rw [takeSegment] at h
  split at h
  · cases h
  · split at h
    · cases h
    · generalize (if a.listen then _ else a : TCPOverIPv4Adapter) = b at h
      dsimp only at h
      split at h
      · cases h
      · exact (Option.some.inj (congrArg Prod.fst h)).symm

/-- A segment that is handed on is what the payload of the datagram says. -/
theorem unwrapTCPInIP_some (h : a.unwrapTCPInIP d = .ok (some seg, a')) :
    ∃ buffer, d.payload.toBuffer = .ok buffer ∧
      TCPSegment.parse {} buffer d.header.pseudoCksum = (.noError, seg) := by
  rw [TCPOverIPv4Adapter.unwrapTCPInIP] at h
  obtain ⟨r, -, h⟩ := bind_eq_ok h
  split at h
  · cases h
  · split at h
    · cases h
    · obtain ⟨buffer, hbuffer, h⟩ := bind_eq_ok h
      refine ⟨buffer, hbuffer, ?_⟩
      dsimp only at h
      split at h
      · cases h
      · next hparse =>
        have hseg := takeSegment_some (Except.ok.inj h)
        exact Prod.ext (Decidable.not_not.mp hparse) hseg.symm

/-- What an adapter takes out of the datagram of a segment is that segment. -/
theorem Encodes.unwrapTCPInIP {b : List Byte} (h : Encodes orig b)
    (hparse : IPv4Datagram.parse {} b = (.noError, d))
    (hunwrap : a.unwrapTCPInIP d = .ok (some seg, a')) : seg.Readdresses orig := by
  obtain ⟨x, y, sent, bytes, hsent, hord, hbytes, rfl⟩ := h
  have hsend := ipDatagram_sendable x y sent (le_of_eq hord.toNat_doff.symm) hord.length_le
  rw [IPv4Datagram.serialize_eq hsend.ver_eq hsend.hlen_ge hsend.size_eq] at hbytes
  cases hbytes
  have hwire := hsend.parse_wire {}
  change IPv4Datagram.parse {} (BufferList.concatenate (_ :: _)) = _ at hwire
  rw [hwire] at hparse
  cases hparse
  obtain ⟨buffer, hbuffer, hseg⟩ := unwrapTCPInIP_some hunwrap
  cases hbuffer
  rw [ipDatagram_concatenate, IPv4Header.pseudoCksum_cksum] at hseg
  change TCPSegment.parse {} _ (ipHeader x y sent).pseudoCksum = _ at hseg
  rw [hord.parse_wire (ipHeader x y sent).pseudoCksum_lt] at hseg
  cases hseg
  exact hsent.cksum _

/-- What `wrapTCPInIP` makes of an ordinary segment can be put on the wire. -/
theorem HasAddresses.wrapTCPInIP (h : a.HasAddresses) (hseg : seg.Ordinary) :
    ∃ d stamped bytes, a.wrapTCPInIP seg = .ok (d, stamped) ∧ d.serialize = .ok bytes ∧
      Encodes seg bytes.concatenate := by
  obtain ⟨x, hx⟩ := h.source
  obtain ⟨y, hy⟩ := h.destination
  have hstamped : (a.stamp seg).Readdresses seg := ⟨_, _, seg.header.cksum, rfl⟩
  have hord := hstamped.ordinary hseg
  have hsend := ipDatagram_sendable x y (a.stamp seg) (le_of_eq hord.toNat_doff.symm) hord.length_le
  have hbytes := IPv4Datagram.serialize_eq hsend.ver_eq hsend.hlen_ge hsend.size_eq
  exact ⟨_, _, _, wrapTCPInIP_eq hx hy (le_of_eq hseg.toNat_doff.symm), hbytes,
    x, y, a.stamp seg, _, hstamped, hord, hbytes, rfl⟩

end Unwrap
end TCPOverIPv4Adapter

/-- A datagram that is parsed has its payload in one buffer. -/
theorem IPv4Datagram.toBuffer_of_parse (d : IPv4Datagram) (b : Buffer) :
    ∃ buffer, (d.parse b).2.payload.toBuffer = .ok buffer := by
  rw [parse]
  generalize d.header.parse.run { buffer := b } = r
  split <;> exact ⟨_, rfl⟩

structure TCPOverIPv4OverTunFdAdapter extends TCPOverIPv4Adapter where
  tun : List BufferList := []

namespace TCPOverIPv4OverTunFdAdapter

def read (a : TCPOverIPv4OverTunFdAdapter) (bytes : Buffer) :
    Except String (Option TCPSegment × TCPOverIPv4OverTunFdAdapter) :=
  let r := IPv4Datagram.parse {} bytes
  if r.1 ≠ .noError then .ok (none, a)
  else do
    let (seg, base) ← a.unwrapTCPInIP r.2
    return (seg, { a with toTCPOverIPv4Adapter := base })

def write (a : TCPOverIPv4OverTunFdAdapter) (seg : TCPSegment) :
    Except String TCPOverIPv4OverTunFdAdapter := do
  let (ipDgram, _) ← a.wrapTCPInIP seg
  return { a with tun := a.tun ++ [← ipDgram.serialize] }

def adapter : FdAdapter TCPOverIPv4OverTunFdAdapter FdAdapterConfig Buffer where
  read := read
  noteRead w bytes := w.noteRead sizeMax bytes
  write := write
  tick a _ := a
  configure a cfg := { a with cfg }
  setListening a listen := { a with listen }
  bytes := id
  sent a := a.tun.map BufferList.concatenate
  Fits _ := True

structure Inv (given : List TCPSegment) (a : TCPOverIPv4OverTunFdAdapter) : Prop where
  has_addresses : a.HasAddresses
  written : ∀ p ∈ a.tun, ∃ orig ∈ given, TCPOverIPv4Adapter.Encodes orig p.concatenate

theorem Inv.read {given : List TCPSegment} {a : TCPOverIPv4OverTunFdAdapter} (h : Inv given a)
    (d : Buffer) : ∃ seg a', a.read d = .ok (seg, a') ∧ Inv given a' := by
  rw [TCPOverIPv4OverTunFdAdapter.read]
  dsimp only
  split
  · exact ⟨none, a, rfl, h⟩
  · obtain ⟨buffer, hbuffer⟩ := IPv4Datagram.toBuffer_of_parse {} d
    obtain ⟨seg, base, hunwrap, hbase⟩ := h.has_addresses.unwrapTCPInIP hbuffer
    rw [hunwrap]
    exact ⟨seg, _, rfl, hbase, h.written⟩

theorem lawful : adapter.Lawful Inv where
  read_ok := by
    intro given a d hinv _
    obtain ⟨seg, a', hread, -⟩ := hinv.read d
    exact ⟨seg, a', hread⟩
  read := by
    intro given a a' d seg hinv hread
    obtain ⟨_, _, hread', hinv'⟩ := hinv.read d
    cases hread'.symm.trans hread
    exact hinv'
  write := by
    intro given a seg hinv hseg
    obtain ⟨d, stamped, bytes, hwrap, hbytes, henc⟩ := hinv.has_addresses.wrapTCPInIP hseg
    refine ⟨{ a with tun := a.tun ++ [bytes] }, ?_, hinv.has_addresses, ?_⟩
    · simp only [adapter, write, hwrap, hbytes, bind, Except.bind]
      rfl
    · intro p hp
      rcases List.mem_append.mp hp with hold | hnew
      · obtain ⟨orig, horig, hold⟩ := hinv.written p hold
        exact ⟨orig, List.mem_append_left _ horig, hold⟩
      · rw [List.mem_singleton.mp hnew]
        exact ⟨seg, List.mem_append_right _ (List.mem_singleton_self seg), henc⟩
  tick := fun _ hinv => hinv
  noteRead := fun _ _ => rfl
  received := by
    intro given a b b' d seg hinv harrives hread
    obtain ⟨p, hp, hbytes⟩ := List.mem_map.mp harrives
    obtain ⟨orig, horig, henc⟩ := hinv.written p hp
    rw [hbytes] at henc
    change b.read d = _ at hread
    rw [TCPOverIPv4OverTunFdAdapter.read] at hread
    dsimp only at hread
    split at hread
    · cases hread
    · next hparse =>
      obtain ⟨⟨seg', base⟩, hunwrap, hread⟩ := bind_eq_ok hread
      cases hread
      exact ⟨orig, horig, henc.unwrapTCPInIP (Prod.ext (Decidable.not_not.mp hparse) rfl) hunwrap⟩

end TCPOverIPv4OverTunFdAdapter

namespace NetworkInterface

/-- A frame with a datagram in it carries one of the segments. -/
def Conveys (given : List TCPSegment) (frame : EthernetFrame) : Prop :=
  frame.header.type = typeIPv4 →
    ∃ orig ∈ given, TCPOverIPv4Adapter.Encodes orig frame.payload.concatenate

/-- Whatever the interface has put out or holds back carries one of the segments, and it has an
IPv4 address to ask and to answer with. -/
structure Carrying (given : List TCPSegment) (s : NetworkInterface) : Prop where
  own : ∃ ip, s.ipAddress.ipv4 = some ip
  out : ∀ frame ∈ s.framesOut, Conveys given frame
  held : ∀ ip payload, payload ∈ (s.notSentDgrams ip).getD [] →
    ∃ orig ∈ given, TCPOverIPv4Adapter.Encodes orig payload.concatenate

section Carrying
variable {given : List TCPSegment} {s : NetworkInterface}

theorem Conveys.mono {frame : EthernetFrame} (h : Conveys given frame) (more : List TCPSegment) :
    Conveys (given ++ more) frame := by
  intro htype
  obtain ⟨orig, horig, henc⟩ := h htype
  exact ⟨orig, List.mem_append_left _ horig, henc⟩

theorem Carrying.mono (h : Carrying given s) (more : List TCPSegment) :
    Carrying (given ++ more) s := by
  refine ⟨h.own, fun frame hframe => (h.out frame hframe).mono more, ?_⟩
  intro ip payload hpayload
  obtain ⟨orig, horig, henc⟩ := h.held ip payload hpayload
  exact ⟨orig, List.mem_append_left _ horig, henc⟩

theorem conveys_arpFrame (given : List TCPSegment) (dst : EthernetAddress) (message : ARPMessage) :
    Conveys given (s.arpFrame dst message) := by
  intro htype
  have hne : typeARP ≠ typeIPv4 := by decide
  exact absurd htype hne

theorem conveys_requests (given : List TCPSegment) (ip : UInt32) :
    ∀ frame ∈ s.requests ip, Conveys given frame := by
  rw [requests]
  split
  · exact List.forall_mem_map.mpr fun own _ => conveys_arpFrame given _ _
  · exact List.forall_mem_nil _

theorem conveys_replies (given : List TCPSegment) (message : ARPMessage) :
    ∀ frame ∈ s.replies message, Conveys given frame := by
  rw [replies]
  split
  · exact List.forall_mem_singleton.mpr (conveys_arpFrame given _ _)
  · exact List.forall_mem_nil _

/-- A datagram that carries a segment goes out or is held back. -/
theorem Carrying.sendDatagram (h : Carrying given s) {dgram : InternetDatagram}
    {nextHop : Address} {ip : UInt32} {bytes : BufferList} (hhop : nextHop.ipv4 = some ip)
    (hbytes : dgram.serialize = .ok bytes)
    (henc : ∃ orig ∈ given, TCPOverIPv4Adapter.Encodes orig bytes.concatenate) :
    ∃ t, s.sendDatagram dgram nextHop = .ok t ∧ Carrying given t := by
  obtain ⟨own, hown⟩ := h.own
  cases hmapped : s.ip2eth ip with
  | some entry =>
    refine ⟨_, s.sendDatagram_of_mapped hhop hbytes hmapped, h.own, ?_, h.held⟩
    exact List.forall_mem_append.mpr ⟨h.out, List.forall_mem_singleton.mpr fun _ => henc⟩
  | none =>
    refine ⟨_, s.sendDatagram_of_not_mapped hhop hbytes hmapped (not_mute hown), h.own, ?_, ?_⟩
    · exact List.forall_mem_append.mpr ⟨h.out, conveys_requests given ip⟩
    · intro ip' payload hpayload
      by_cases hip : ip' = ip
      · subst hip
        simp only [awaiting, Function.update_self, Option.getD_some] at hpayload
        rcases List.mem_append.mp hpayload with hold | hnew
        · exact h.held ip' payload hold
        · rw [List.mem_singleton.mp hnew]
          exact henc
      · dsimp only [awaiting] at hpayload
        rw [Function.update_of_ne hip] at hpayload
        exact h.held ip' payload hpayload

/-- An ARP message lets out what was held back. -/
theorem Carrying.recvFrame (h : Carrying given s) (header : EthernetHeader) (bytes : Buffer) :
    ∃ dgram t, s.recvFrame ⟨header, [bytes]⟩ = .ok (dgram, t) ∧ Carrying given t := by
  obtain ⟨own, hown⟩ := h.own
  cases hheard : s.heard ⟨header, [bytes]⟩ with
  | some message =>
    rw [s.recvFrame_of_heard hheard, s.recvARP_eq (not_baffles hown message)]
    refine ⟨_, _, rfl, h.own, ?_, ?_⟩
    · refine List.forall_mem_append.mpr
        ⟨List.forall_mem_append.mpr ⟨h.out, conveys_replies given message⟩, ?_⟩
      intro frame hframe
      obtain ⟨payload, hpayload, rfl⟩ := List.mem_map.mp hframe
      exact fun _ => h.held _ payload hpayload
    · intro ip payload hpayload
      by_cases hip : ip = message.senderIPAddress
      · subst hip
        simp only [Function.update_self, Option.getD_none] at hpayload
        cases hpayload
      · dsimp only at hpayload
        rw [Function.update_of_ne hip] at hpayload
        exact h.held ip payload hpayload
  | none =>
    rcases s.recvFrame_of_not_heard hheard with ⟨message, hbuffer, -⟩ | heq | ⟨dgram, -, heq⟩
    · cases hbuffer
    · exact ⟨_, _, heq, h⟩
    · exact ⟨_, _, heq, h⟩

end Carrying
end NetworkInterface

namespace TCPOverIPv4OverEthernetAdapter
open NetworkInterface

def adapter : FdAdapter TCPOverIPv4OverEthernetAdapter FdAdapterConfig Buffer where
  read := read
  noteRead w bytes := w.noteRead sizeMax bytes
  write a seg := (a.write seg).map Prod.snd
  tick := tick
  configure a cfg := { a with cfg }
  setListening a listen := { a with listen }
  bytes := id
  sent a := a.tap.map BufferList.concatenate
  Fits _ := True

structure Inv (given : List TCPSegment) (a : TCPOverIPv4OverEthernetAdapter) : Prop where
  has_addresses : a.HasAddresses
  next_hop : ∃ ip, a.nextHop.ipv4 = some ip
  written : ∀ p ∈ a.tap, ∃ frame : EthernetFrame, p = frame.serialize ∧ Conveys given frame
  carrying : a.interface.Carrying given

section Inv
variable {given : List TCPSegment} {a : TCPOverIPv4OverEthernetAdapter}

theorem mem_foldl_serialize {frames : List EthernetFrame} {tap : List BufferList} {p : BufferList}
    (h : p ∈ frames.foldl (fun tap frame => tap ++ [frame.serialize]) tap) :
    p ∈ tap ∨ ∃ frame ∈ frames, p = frame.serialize := by
  induction frames generalizing tap with
  | nil => exact Or.inl h
  | cons frame frames ih =>
    rcases ih h with hold | ⟨frame', hmem, hp⟩
    · rcases List.mem_append.mp hold with hold | hnew
      · exact Or.inl hold
      · exact Or.inr ⟨frame, List.mem_cons_self, List.mem_singleton.mp hnew⟩
    · exact Or.inr ⟨frame', List.mem_cons_of_mem _ hmem, hp⟩

/-- The call of the interface is followed by writing out its frames. -/
theorem Inv.sendPending (h : Inv given a) {s : NetworkInterface} (hs : s.Carrying given) :
    Inv given { a with interface := s }.sendPending := by
  refine ⟨h.has_addresses, h.next_hop, ?_, hs.own, List.forall_mem_nil _, hs.held⟩
  intro p hp
  rcases mem_foldl_serialize hp with hold | ⟨frame, hframe, rfl⟩
  · exact h.written p hold
  · exact ⟨frame, rfl, hs.out frame hframe⟩

theorem Inv.mono (h : Inv given a) (more : List TCPSegment) : Inv (given ++ more) a := by
  refine ⟨h.has_addresses, h.next_hop, ?_, h.carrying.mono more⟩
  intro p hp
  obtain ⟨frame, hframe, hconveys⟩ := h.written p hp
  exact ⟨frame, hframe, hconveys.mono more⟩

theorem Inv.read (h : Inv given a) (d : Buffer) :
    ∃ seg a', a.read d = .ok (seg, a') ∧ Inv given a' := by
  obtain ⟨header, bytes, hframe⟩ : ∃ header bytes,
      EthernetFrame.initial.parse d = (.noError, ⟨header, [bytes]⟩) := by
    by_cases hd : 14 ≤ d.length
    · exact ⟨_, _, EthernetFrame.initial.parse_of_le hd⟩
    · exact ⟨_, _, EthernetFrame.initial.parse_of_lt (Nat.not_le.mp hd)⟩
  obtain ⟨dgram, s, hrecv, hs⟩ := h.carrying.recvFrame header bytes
  have hnext := h.sendPending hs
  simp only [TCPOverIPv4OverEthernetAdapter.read, frameIn_eq, hframe, hrecv, bind, Except.bind,
    Outcome.forget_ok]
  cases dgram with
  | none => exact ⟨_, _, rfl, hnext⟩
  | some dgram =>
    obtain ⟨-, -, -, buffer, -, hparse⟩ := recvFrame_some _ hrecv
    obtain ⟨buffer', hbuffer⟩ := IPv4Datagram.toBuffer_of_parse {} buffer
    rw [hparse] at hbuffer
    obtain ⟨seg, base, hunwrap, hbase⟩ := hnext.has_addresses.unwrapTCPInIP hbuffer
    simp only [hunwrap]
    exact ⟨_, _, rfl, hbase, hnext.next_hop, hnext.written, hnext.carrying⟩

theorem Inv.write (h : Inv given a) {seg : TCPSegment} (hseg : seg.Ordinary) :
    ∃ stamped a', a.write seg = .ok (stamped, a') ∧ Inv (given ++ [seg]) a' := by
  obtain ⟨dgram, stamped, bytes, hwrap, hbytes, henc⟩ := h.has_addresses.wrapTCPInIP hseg
  obtain ⟨ip, hhop⟩ := h.next_hop
  have hmem : seg ∈ given ++ [seg] := List.mem_append_right _ (List.mem_singleton_self seg)
  obtain ⟨s, hsend, hs⟩ := (h.carrying.mono [seg]).sendDatagram hhop hbytes ⟨seg, hmem, henc⟩
  refine ⟨stamped, _, ?_, (h.mono [seg]).sendPending hs⟩
  simp only [TCPOverIPv4OverEthernetAdapter.write, hwrap, hsend, bind, Except.bind,
    Outcome.forget_ok]
  rfl

/-- A frame of this adapter that makes another adapter return a segment carries that segment. -/
theorem Inv.received (h : Inv given a) {b b' : TCPOverIPv4OverEthernetAdapter} {d : Buffer}
    {seg : TCPSegment} (harrives : d ∈ a.tap.map BufferList.concatenate)
    (hread : b.read d = .ok (some seg, b')) : ∃ orig ∈ given, seg.Readdresses orig := by
  obtain ⟨p, hp, rfl⟩ := List.mem_map.mp harrives
  obtain ⟨frame, rfl, hconveys⟩ := h.written p hp
  rw [TCPOverIPv4OverEthernetAdapter.read, frameIn_eq, EthernetFrame.parse_serialize] at hread
  obtain ⟨⟨dgram, s⟩, hrecv, hread⟩ := bind_eq_ok hread
  rw [Outcome.forget_eq_ok] at hrecv
  cases dgram with
  | none => cases hread
  | some dgram =>
    obtain ⟨⟨seg', base⟩, hunwrap, hread⟩ := bind_eq_ok hread
    cases hread
    obtain ⟨-, -, htype, buffer, hbuffer, hparse⟩ := recvFrame_some _ hrecv
    cases hbuffer
    obtain ⟨orig, horig, henc⟩ := hconveys htype
    exact ⟨orig, horig, henc.unwrapTCPInIP hparse hunwrap⟩

end Inv

theorem lawful : adapter.Lawful Inv where
  read_ok := by
    intro given a d hinv _
    obtain ⟨seg, a', hread, -⟩ := hinv.read d
    exact ⟨seg, a', hread⟩
  read := by
    intro given a a' d seg hinv hread
    obtain ⟨_, _, hread', hinv'⟩ := hinv.read d
    cases hread'.symm.trans hread
    exact hinv'
  write := by
    intro given a seg hinv hseg
    obtain ⟨stamped, a', hwrite, hinv'⟩ := hinv.write hseg
    refine ⟨a', ?_, hinv'⟩
    change (a.write seg).map Prod.snd = .ok a'
    rw [hwrite]
    rfl
  tick := fun _ hinv => hinv.sendPending ⟨hinv.carrying.own, hinv.carrying.out, hinv.carrying.held⟩
  noteRead := fun _ _ => rfl
  received := fun hinv harrives hread => hinv.received harrives hread

end TCPOverIPv4OverEthernetAdapter

/-- A configuration with the two loss rates, which only a lossy adapter looks at. -/
structure LossyConfig extends FdAdapterConfig where
  lossRateDn : UInt16 := 0
  lossRateUp : UInt16 := 0

/-- `rand` is the sequence the random generator yields, `drawn` the number of its calls so far. -/
structure LossyFdAdapter (α : Type) where
  rand : ℕ → UInt32
  drawn : ℕ := 0
  adapter : α
  lossRateDn : UInt16 := 0
  lossRateUp : UInt16 := 0

namespace LossyFdAdapter
variable {α δ : Type}

def shouldDrop (a : LossyFdAdapter α) (uplink : Bool) : Bool × LossyFdAdapter α :=
  let loss := if uplink then a.lossRateUp else a.lossRateDn
  if loss = 0 then (false, a)
  else (decide ((a.rand a.drawn).toUInt16 < loss), { a with drawn := a.drawn + 1 })

def lossy (A : FdAdapter α FdAdapterConfig δ) : FdAdapter (LossyFdAdapter α) LossyConfig δ where
  read a d := do
    let (ret, inner) ← A.read a.adapter d
    let (drop, a) := { a with adapter := inner }.shouldDrop false
    return (if drop then none else ret, a)
  noteRead := A.noteRead
  write a seg :=
    let (drop, a) := a.shouldDrop true
    if drop then .ok a
    else (A.write a.adapter seg).map fun inner => { a with adapter := inner }
  tick a ms := { a with adapter := A.tick a.adapter ms }
  configure a cfg := { a with
    adapter := A.configure a.adapter cfg.toFdAdapterConfig
    lossRateDn := cfg.lossRateDn
    lossRateUp := cfg.lossRateUp }
  setListening a listen := { a with adapter := A.setListening a.adapter listen }
  bytes := A.bytes
  sent a := A.sent a.adapter
  Fits := A.Fits

theorem shouldDrop_adapter (a : LossyFdAdapter α) (uplink : Bool) :
    (a.shouldDrop uplink).2.adapter = a.adapter := by
  rw [shouldDrop]
  generalize (if uplink then a.lossRateUp else a.lossRateDn) = loss
  split <;> rfl

/-- What is dropped was given, but to nobody. -/
def Inv (J : List TCPSegment → α → Prop) (given : List TCPSegment) (a : LossyFdAdapter α) : Prop :=
  ∃ passed, (∀ seg ∈ passed, seg ∈ given) ∧ J passed a.adapter

/-- Losses do not break the law of an adapter. -/
theorem lawful_lossy {A : FdAdapter α FdAdapterConfig δ} {J : List TCPSegment → α → Prop}
    (h : A.Lawful J) : (lossy A).Lawful (Inv J) where
  read_ok := by
    rintro given a d ⟨passed, -, hinv⟩ hfits
    obtain ⟨seg, inner, hread⟩ := h.read_ok hinv hfits
    simp only [lossy, hread, bind, Except.bind]
    exact ⟨_, _, rfl⟩
  read := by
    rintro given a a' d seg ⟨passed, hpassed, hinv⟩ hread
    obtain ⟨⟨ret, inner⟩, hinner, hread⟩ := bind_eq_ok hread
    have hsame := ({ a with adapter := inner } : LossyFdAdapter α).shouldDrop_adapter false
    cases hread
    exact ⟨passed, hpassed, hsame.symm ▸ h.read hinv hinner⟩
  write := by
    rintro given a seg ⟨passed, hpassed, hinv⟩ hseg
    have hsame := a.shouldDrop_adapter true
    have hweak : ∀ s ∈ passed, s ∈ given ++ [seg] :=
      fun s hs => List.mem_append_left _ (hpassed s hs)
    simp only [lossy, hsame]
    split
    · exact ⟨_, rfl, passed, hweak, hsame.symm ▸ hinv⟩
    · obtain ⟨inner, hwrite, hinner⟩ := h.write hinv hseg
      rw [hwrite]
      refine ⟨_, rfl, passed ++ [seg], ?_, hinner⟩
      exact List.forall_mem_append.mpr ⟨hweak, List.forall_mem_singleton.mpr
        (List.mem_append_right _ (List.mem_singleton_self seg))⟩
  tick := by
    rintro given a ms ⟨passed, hpassed, hinv⟩
    exact ⟨passed, hpassed, h.tick ms hinv⟩
  noteRead := h.noteRead
  received := by
    rintro given a b b' d seg ⟨passed, hpassed, hinv⟩ harrives hread
    obtain ⟨⟨ret, inner⟩, hinner, hread⟩ := bind_eq_ok hread
    dsimp only at hread
    cases hdrop : (({ b with adapter := inner } : LossyFdAdapter α).shouldDrop false).1 with
    | true =>
      simp only [hdrop] at hread
      cases hread
    | false =>
      simp only [hdrop] at hread
      cases hread
      obtain ⟨orig, horig, hseg⟩ := h.received hinv harrives hinner
      exact ⟨orig, hpassed orig horig, hseg⟩

end LossyFdAdapter

namespace FdAdapter
variable {α κ δ : Type}

inductive Call (δ : Type) where
  | read (d : δ)
  | write (seg : TCPSegment)
  | tick (ms : ℕ)

def perform (A : FdAdapter α κ δ) (a : α) : Call δ → Except String α
  | .read d => (A.read a d).map Prod.snd
  | .write seg => A.write a seg
  | .tick ms => .ok (A.tick a ms)

def Call.written : Call δ → List TCPSegment
  | .write seg => [seg]
  | _ => []

def Call.Proper (A : FdAdapter α κ δ) : Call δ → Prop
  | .read d => A.Fits d
  | .write seg => seg.Ordinary
  | .tick _ => True

/-- However the adapter is used from `a` on, it never throws, and a segment that is taken out of one
of its packets is one that was written. -/
def Conveys (A : FdAdapter α κ δ) (a : α) : Prop :=
  ∀ calls : List (Call δ), (∀ c ∈ calls, c.Proper A) → ∃ a', calls.foldlM A.perform a = .ok a' ∧
    ∀ b b' d seg, A.bytes d ∈ A.sent a' → A.read b d = .ok (some seg, b') →
      ∃ orig ∈ calls.flatMap Call.written, seg.Readdresses orig

theorem Lawful.perform {A : FdAdapter α κ δ} {Inv : List TCPSegment → α → Prop} (h : A.Lawful Inv)
    {given : List TCPSegment} {a : α} (ha : Inv given a) {c : Call δ} (hc : c.Proper A) :
    ∃ a', A.perform a c = .ok a' ∧ Inv (given ++ c.written) a' := by
  cases c with
  | read d =>
    obtain ⟨seg, a', hread⟩ := h.read_ok ha hc
    refine ⟨a', ?_, (List.append_nil given).symm ▸ h.read ha hread⟩
    rw [FdAdapter.perform, hread]
    rfl
  | write seg => exact h.write ha hc
  | tick ms => exact ⟨_, rfl, (List.append_nil given).symm ▸ h.tick ms ha⟩

theorem Lawful.performAll {A : FdAdapter α κ δ} {Inv : List TCPSegment → α → Prop}
    (h : A.Lawful Inv) {calls : List (Call δ)} {given : List TCPSegment} {a : α} (ha : Inv given a)
    (hcalls : ∀ c ∈ calls, c.Proper A) :
    ∃ a', calls.foldlM A.perform a = .ok a' ∧ Inv (given ++ calls.flatMap Call.written) a' := by
  induction calls generalizing given a with
  | nil => exact ⟨a, rfl, (List.append_nil given).symm ▸ ha⟩
  | cons c calls ih =>
    obtain ⟨hc, hcalls⟩ := List.forall_mem_cons.mp hcalls
    obtain ⟨a₁, hone, ha₁⟩ := h.perform ha hc
    obtain ⟨a', hrest, ha'⟩ := ih ha₁ hcalls
    refine ⟨a', ?_, ?_⟩
    · rw [List.foldlM_cons, hone]
      exact hrest
    · rw [List.flatMap_cons, ← List.append_assoc]
      exact ha'

theorem Lawful.conveys {A : FdAdapter α κ δ} {Inv : List TCPSegment → α → Prop} (h : A.Lawful Inv)
    {a : α} (ha : Inv [] a) : A.Conveys a := by
  intro calls hcalls
  obtain ⟨a', hrun, ha'⟩ := h.performAll ha hcalls
  exact ⟨a', hrun, fun b b' d seg harrives hread => h.received ha' harrives hread⟩

end FdAdapter

/-- The five ways of a socket to the network, whether it listens or has a peer. -/
theorem adapters_convey {cfg : FdAdapterConfig} {x y own hop : UInt32}
    (hsource : cfg.source.ipv4 = some x) (hdestination : cfg.destination.ipv4 = some y)
    (listen : Bool) (ethAddress : EthernetAddress) {ipAddress : Address}
    (hown : ipAddress.ipv4 = some own) {nextHop : Address} (hhop : nextHop.ipv4 = some hop)
    (rand : ℕ → UInt32) (lossRateDn lossRateUp : UInt16) :
    TCPOverUDPSocketAdapter.adapter.Conveys { cfg, listen } ∧
      TCPOverIPv4OverTunFdAdapter.adapter.Conveys { cfg, listen } ∧
      TCPOverIPv4OverEthernetAdapter.adapter.Conveys
        (.new { cfg, listen } ethAddress ipAddress nextHop) ∧
      (LossyFdAdapter.lossy TCPOverUDPSocketAdapter.adapter).Conveys
        { rand, adapter := { cfg, listen }, lossRateDn, lossRateUp } ∧
      (LossyFdAdapter.lossy TCPOverIPv4OverTunFdAdapter.adapter).Conveys
        { rand, adapter := { cfg, listen }, lossRateDn, lossRateUp } := by
  have hudp : TCPOverUDPSocketAdapter.Inv [] { cfg, listen } := fun b hb => by cases hb
  have htun : TCPOverIPv4OverTunFdAdapter.Inv [] { cfg, listen } :=
    ⟨⟨⟨x, hsource⟩, ⟨y, hdestination⟩⟩, List.forall_mem_nil _⟩
  have hnone : ∀ seg ∈ ([] : List TCPSegment), seg ∈ ([] : List TCPSegment) := fun _ => id
  refine ⟨TCPOverUDPSocketAdapter.lawful.conveys hudp,
    TCPOverIPv4OverTunFdAdapter.lawful.conveys htun,
    TCPOverIPv4OverEthernetAdapter.lawful.conveys
      ⟨⟨⟨x, hsource⟩, ⟨y, hdestination⟩⟩, ⟨hop, hhop⟩, ?_, ⟨own, hown⟩, List.forall_mem_nil _, ?_⟩,
    (LossyFdAdapter.lawful_lossy TCPOverUDPSocketAdapter.lawful).conveys ⟨[], hnone, hudp⟩,
    (LossyFdAdapter.lawful_lossy TCPOverIPv4OverTunFdAdapter.lawful).conveys ⟨[], hnone, htun⟩⟩
  · -- the dummy frame the device ignores has no type
    refine List.forall_mem_singleton.mpr ⟨EthernetFrame.initial, rfl, fun htype => ?_⟩
    have hne : EthernetFrame.initial.header.type ≠ typeIPv4 := by decide
    exact absurd htype hne
  · intro ip payload hpayload
    cases hpayload

theorem adapters_convey_lossy :
    (LossyFdAdapter.lossy TCPOverIPv4OverTunFdAdapter.adapter).Conveys
      { rand := fun i => i.toUInt32
        adapter := {
          cfg := {
            source := { port := 1, ipv4 := some 1 }, destination := { port := 2, ipv4 := some 2 } }
          listen := true }
        lossRateDn := 3
        lossRateUp := 4 } :=
  (adapters_convey (x := 1) (y := 2) rfl rfl true (Vector.replicate 6 2)
    (show (Address.fromIPv4Numeric 1).ipv4 = some 1 from rfl)
    (show (Address.fromIPv4Numeric 3).ipv4 = some 3 from rfl) (fun i => i.toUInt32) 3 4).2.2.2.2

end Sponge
