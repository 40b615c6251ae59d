import Sponge.Address
import Sponge.IPv4Datagram
import Sponge.TCPSerialization

/-! # TCP segments in IPv4 datagrams -/
namespace Sponge
open BigEndian

structure FdAdapterConfig where
  source : Address
  destination : Address
  deriving DecidableEq

structure TCPOverIPv4Adapter where
  cfg : FdAdapterConfig
  listen : Bool := false
  deriving DecidableEq

namespace TCPOverIPv4Adapter

/-- The address tests of `unwrap_tcp_in_ip`; a listening adapter makes none. -/
def concerns (a : TCPOverIPv4Adapter) (ipDgram : InternetDatagram) : Except String Bool := do
  if a.listen then return true
  if ipDgram.header.dst ≠ (← a.cfg.source.ipv4Numeric) then return false
  if ipDgram.header.src ≠ (← a.cfg.destination.ipv4Numeric) then return false
  return true

/-- The port tests of `unwrap_tcp_in_ip`; a listening adapter takes a SYN as its peer's. -/
def takeSegment (a : TCPOverIPv4Adapter) (ipDgram : InternetDatagram) (tcpSeg : TCPSegment) :
    Option TCPSegment × TCPOverIPv4Adapter :=
  if tcpSeg.header.dport ≠ a.cfg.source.port then (none, a)
  else if a.listen && !(tcpSeg.header.syn && !tcpSeg.header.rst) then (none, a)
  else
    let a := if a.listen then
      { cfg := {
          source := ⟨some ipDgram.header.dst, a.cfg.source.port⟩
          destination := ⟨some ipDgram.header.src, tcpSeg.header.sport⟩ }
        listen := false }
      else a
    if tcpSeg.header.sport ≠ a.cfg.destination.port then (none, a) else (some tcpSeg, a)

def unwrapTCPInIP (a : TCPOverIPv4Adapter) (ipDgram : InternetDatagram) :
    Except String (Option TCPSegment × TCPOverIPv4Adapter) := do
  if !(← a.concerns ipDgram) then return (none, a)
  if ipDgram.header.proto ≠ IPv4Header.protoTCP then return (none, a)
  let r := TCPSegment.parse {} (← ipDgram.payload.toBuffer) ipDgram.header.pseudoCksum
  if r.1 ≠ .noError then return (none, a)
  return a.takeSegment ipDgram r.2

/-- The segment with the port numbers of the adapter. -/
def stamp (a : TCPOverIPv4Adapter) (seg : TCPSegment) : TCPSegment :=
  { seg with header.sport := a.cfg.source.port, header.dport := a.cfg.destination.port }

/-- The header of a datagram for the segment; the length is cut to 16 bits. -/
def ipHeader (src dst : UInt32) (seg : TCPSegment) : IPv4Header :=
  let header : IPv4Header := { src, dst }
  { header with
    len := UInt16.ofNat
      (header.hlen.toNat * 4 + seg.header.doff.toNat * 4 + seg.payload.length) }

/-- The port numbers are written into the segment, which is returned with the datagram. -/
def wrapTCPInIP (a : TCPOverIPv4Adapter) (seg : TCPSegment) :
    Except String (InternetDatagram × TCPSegment) := do
  let seg := a.stamp seg
  let header := ipHeader (← a.cfg.source.ipv4Numeric) (← a.cfg.destination.ipv4Numeric) seg
  return ({ header, payload := ← seg.serialize header.pseudoCksum }, seg)

section RoundTrip
variable {a b : TCPOverIPv4Adapter} {seg : TCPSegment} {x y : UInt32}

/-- The datagram a segment is wrapped in. -/
def ipDatagram (x y : UInt32) (seg : TCPSegment) : InternetDatagram where
  header := ipHeader x y seg
  payload := [seg.header.front ++ (encode 2 (seg.cksumFor (ipHeader x y seg).pseudoCksum).toNat ++
    seg.header.back), seg.payload]

theorem wrapTCPInIP_eq (hsrc : a.cfg.source.ipv4 = some x) (hdst : a.cfg.destination.ipv4 = some y)
    (hd : 5 ≤ seg.header.doff.toNat) :
    a.wrapTCPInIP seg = .ok (ipDatagram x y (a.stamp seg), a.stamp seg) := by
  have hbytes := TCPSegment.serialize_eq (a.stamp seg) (ipHeader x y (a.stamp seg)).pseudoCksum hd
  rw [wrapTCPInIP]
  simp only [Address.ipv4Numeric_eq hsrc, Address.ipv4Numeric_eq hdst, bind, Except.bind, hbytes]
  rfl

theorem ipDatagram_concatenate (x y : UInt32) (seg : TCPSegment) :
    (ipDatagram x y seg).payload.concatenate =
      seg.wire (seg.cksumFor (ipHeader x y seg).pseudoCksum) :=
  seg.concatenate_serialized _

theorem ipDatagram_sendable (x y : UInt32) (seg : TCPSegment) (hd : 5 ≤ seg.header.doff.toNat)
    (hlen : 20 + 4 * seg.header.doff.toNat + seg.payload.length ≤ 65535) :
    (ipDatagram x y seg).Sendable := by
  have hsize : (ipDatagram x y seg).payload.size =
      4 * seg.header.doff.toNat + seg.payload.length := by
    rw [← BufferList.length_concatenate, ipDatagram_concatenate, TCPSegment.length_wire hd]
  have htotal : (ipDatagram x y seg).header.len.toNat =
      (20 + seg.header.doff.toNat * 4 + seg.payload.length) % 65536 := UInt16.toNat_ofNat'
  refine ⟨rfl, show 5 ≤ UInt8.toNat 5 by decide, show UInt8.toNat 5 ≤ 15 by decide,
    show UInt16.toNat 0 < 2 ^ 13 by decide, ?_⟩
  rw [htotal, hsize]
  change _ = 4 * 5 + _
  omega

section Unwrap
variable {ipDgram : InternetDatagram}

theorem concerns_of_addresses (hb : b.listen = false)
    (hdst : b.cfg.source.ipv4 = some ipDgram.header.dst)
    (hsrc : b.cfg.destination.ipv4 = some ipDgram.header.src) :
    b.concerns ipDgram = .ok true := by
  simp [concerns, hb, Address.ipv4Numeric_eq hdst, Address.ipv4Numeric_eq hsrc, bind, Except.bind,
    pure, Except.pure]

theorem takeSegment_of_ports (ipDgram : InternetDatagram) (hb : b.listen = false)
    (hdport : seg.header.dport = b.cfg.source.port)
    (hsport : seg.header.sport = b.cfg.destination.port) :
    b.takeSegment ipDgram seg = (some seg, b) := by
  simp [takeSegment, hb, hdport, hsport]

/-- A segment from the peer is handed on. -/
theorem unwrapTCPInIP_eq {header : IPv4Header} {buffer : Buffer} (hb : b.listen = false)
    (hdst : b.cfg.source.ipv4 = some header.dst) (hsrc : b.cfg.destination.ipv4 = some header.src)
    (hproto : header.proto = IPv4Header.protoTCP)
    (hparse : TCPSegment.parse {} buffer header.pseudoCksum = (.noError, seg))
    (hdport : seg.header.dport = b.cfg.source.port)
    (hsport : seg.header.sport = b.cfg.destination.port) :
    b.unwrapTCPInIP ⟨header, [buffer]⟩ = .ok (some seg, b) := by
  have hconcerns : b.concerns ⟨header, [buffer]⟩ = .ok true := concerns_of_addresses hb hdst hsrc
  have htake := takeSegment_of_ports ⟨header, [buffer]⟩ hb hdport hsport
  simp [unwrapTCPInIP, hconcerns, hproto, BufferList.toBuffer, hparse, htake, bind, Except.bind,
    pure, Except.pure]

end Unwrap

/-- What one adapter wraps and puts on the wire the mirrored adapter takes out again. Whether the
first one listens does not matter. -/
theorem unwrapTCPInIP_wrapTCPInIP (a b : TCPOverIPv4Adapter) (hb : b.listen = false)
    (hsource : b.cfg.source = a.cfg.destination) (hdestination : b.cfg.destination = a.cfg.source)
    (hsrc : a.cfg.source.ipv4 = some x) (hdst : a.cfg.destination.ipv4 = some y)
    (hd : 5 ≤ seg.header.doff.toNat) (hd' : seg.header.doff.toNat ≤ 15)
    (hlen : 20 + 4 * seg.header.doff.toNat + seg.payload.length ≤ 65535) :
    ∃ ipDgram stamped bytes received cksum,
      a.wrapTCPInIP seg = .ok (ipDgram, stamped) ∧ ipDgram.serialize = .ok bytes ∧
      IPv4Datagram.parse {} bytes.concatenate = (.noError, received) ∧
      b.unwrapTCPInIP received = .ok (some { seg with
        header.sport := a.cfg.source.port
        header.dport := a.cfg.destination.port
        header.cksum := cksum }, b) := by
  have hsend := ipDatagram_sendable x y (a.stamp seg) hd hlen
  have hps := (ipHeader x y (a.stamp seg)).pseudoCksum_lt
  refine ⟨_, _, _, _, (a.stamp seg).cksumFor (ipHeader x y (a.stamp seg)).pseudoCksum,
    wrapTCPInIP_eq hsrc hdst hd,
    IPv4Datagram.serialize_eq hsend.ver_eq hsend.hlen_ge hsend.size_eq, hsend.parse_wire {}, ?_⟩
  have hfits : 4 * (a.stamp seg).header.doff.toNat + (a.stamp seg).payload.length ≤ 65535 := by
    change 4 * seg.header.doff.toNat + seg.payload.length ≤ 65535
    omega
  have hparse := TCPSegment.parse_wire {} (a.stamp seg) hd hd' hfits hps
  rw [← ipDatagram_concatenate] at hparse
  apply unwrapTCPInIP_eq hb
  · rw [hsource]
    exact hdst
  · rw [hdestination]
    exact hsrc
  · rfl
  · rw [IPv4Header.pseudoCksum_cksum]
    exact hparse
  · exact congrArg Address.port hsource.symm
  · exact congrArg Address.port hdestination.symm

theorem unwrapTCPInIP_wrapTCPInIP_syn :
    ∃ ipDgram stamped bytes received cksum,
      wrapTCPInIP ⟨⟨⟨some 1, 80⟩, ⟨some 2, 90⟩⟩, false⟩
          { header := { syn := true }, payload := [7] } = .ok (ipDgram, stamped) ∧
      ipDgram.serialize = .ok bytes ∧
      IPv4Datagram.parse {} bytes.concatenate = (.noError, received) ∧
      unwrapTCPInIP ⟨⟨⟨some 2, 90⟩, ⟨some 1, 80⟩⟩, false⟩ received =
        .ok (some { header := { sport := 80, dport := 90, syn := true, cksum }, payload := [7] },
          ⟨⟨⟨some 2, 90⟩, ⟨some 1, 80⟩⟩, false⟩) :=
  unwrapTCPInIP_wrapTCPInIP ⟨⟨⟨some 1, 80⟩, ⟨some 2, 90⟩⟩, false⟩
    ⟨⟨⟨some 2, 90⟩, ⟨some 1, 80⟩⟩, false⟩ rfl rfl rfl rfl rfl (by decide) (by decide) (by decide)

end RoundTrip

end TCPOverIPv4Adapter
end Sponge
