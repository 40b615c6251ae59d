import Sponge.InternetChecksum
import Sponge.NetParser
import Sponge.TCPSegment

/-! # TCP segments on the wire -/
namespace Sponge
open BigEndian OnesComplement NetParser

namespace TCPHeader

/-- `TCPHeader::LENGTH`, the length of a header without options. -/
def baseLength : ℕ := 20

/-- The fields of the header, in the order in which they are read. -/
def parseFields : StateM NetParser TCPHeader := do
  let sport ← u16
  let dport ← u16
  let seqno ← u32
  let ackno ← u32
  let doff ← u8
  let flB ← u8
  let win ← u16
  let cksum ← u16
  let uptr ← u16
  return {
    sport, dport, seqno := ⟨seqno⟩, ackno := ⟨ackno⟩
    doff := doff >>> 4
    urg := flB &&& 0b00100000 ≠ 0
    ack := flB &&& 0b00010000 ≠ 0
    psh := flB &&& 0b00001000 ≠ 0
    rst := flB &&& 0b00000100 ≠ 0
    syn := flB &&& 0b00000010 ≠ 0
    fin := flB &&& 0b00000001 ≠ 0
    win, cksum, uptr }

def parse : StateM NetParser (ParseResult × TCPHeader) := do
  let header ← parseFields
  if header.doff < 5 then return (.headerTooShort, header)
  removePrefix (4 * header.doff.toNat - baseLength)
  let p ← get
  if p.error ≠ .noError then return (p.error, header)
  return (.noError, header)

def packFlags (urg ack psh rst syn fin : Bool) : UInt8 :=
  (if urg then 0b00100000 else 0) ||| (if ack then 0b00010000 else 0) |||
    (if psh then 0b00001000 else 0) ||| (if rst then 0b00000100 else 0) |||
    (if syn then 0b00000010 else 0) ||| (if fin then 0b00000001 else 0)

def flagByte (h : TCPHeader) : UInt8 := packFlags h.urg h.ack h.psh h.rst h.syn h.fin

def serialize (h : TCPHeader) : Except String (List Byte) :=
  if h.doff < 5 then .error "TCP header too short"
  else
    let ret := NetUnparser.u16 [] h.sport
    let ret := NetUnparser.u16 ret h.dport
    let ret := NetUnparser.u32 ret h.seqno.rawValue
    let ret := NetUnparser.u32 ret h.ackno.rawValue
    let ret := NetUnparser.u8 ret (h.doff <<< 4)
    let ret := NetUnparser.u8 ret h.flagByte
    let ret := NetUnparser.u16 ret h.win
    let ret := NetUnparser.u16 ret h.cksum
    let ret := NetUnparser.u16 ret h.uptr
    .ok (resize ret (4 * h.doff.toNat))

/-- The header a byte string spells out: numbers are big-endian, flags are bits. -/
def encodedIn (b : List Byte) : TCPHeader where
  sport := UInt16.ofNat (field b 0 2)
  dport := UInt16.ofNat (field b 2 2)
  seqno := ⟨UInt32.ofNat (field b 4 4)⟩
  ackno := ⟨UInt32.ofNat (field b 8 4)⟩
  doff := UInt8.ofNat (field b 12 1 / 16)
  urg := (field b 13 1).testBit 5
  ack := (field b 13 1).testBit 4
  psh := (field b 13 1).testBit 3
  rst := (field b 13 1).testBit 2
  syn := (field b 13 1).testBit 1
  fin := (field b 13 1).testBit 0
  win := UInt16.ofNat (field b 14 2)
  cksum := UInt16.ofNat (field b 16 2)
  uptr := UInt16.ofNat (field b 18 2)

theorem reads_parseFields : Reads 20 encodedIn parseFields := by
  refine (reads_u16.bind fun sport => reads_u16.bind fun dport => reads_u32.bind fun seqno =>
    reads_u32.bind fun ackno => reads_u8.bind fun doff => reads_u8.bind fun flB =>
    reads_u16.bind fun win => reads_u16.bind fun cksum => reads_u16.bind fun uptr =>
    Reads.pure _).congr ?_
  intro b
  have hdoff := byte_shiftRight_four (field_lt b 12 1)
  have hflag (i : ℕ) (hi : i < 8) := byte_testBit (field b 13 1) hi
  have hurg := hflag 5 (by decide)
  have hack := hflag 4 (by decide)
  have hpsh := hflag 3 (by decide)
  have hrst := hflag 2 (by decide)
  have hsyn := hflag 1 (by decide)
  have hfin := hflag 0 (by decide)
  rw [encodedIn, ← hdoff, ← hurg, ← hack, ← hpsh, ← hrst, ← hsyn, ← hfin]
  simp only [field, List.drop_drop]
  rfl

theorem lt_five_iff (h : TCPHeader) : h.doff < 5 ↔ h.doff.toNat < 5 := UInt8.lt_iff_toNat_lt

section Parse
variable {b : List Byte}

/-- A data offset below five is reported, but leaves no error in the parser. -/
theorem parse_run_of_lt_five (hb : 20 ≤ b.length) (hd : (encodedIn b).doff.toNat < 5) :
    parse.run ⟨b, .noError⟩ = ((.headerTooShort, encodedIn b), ⟨b.drop 20, .noError⟩) := by
  rw [parse, reads_parseFields.run_bind hb, if_pos ((lt_five_iff _).mpr hd)]
  rfl

theorem parse_run_of_le (hd : 5 ≤ (encodedIn b).doff.toNat)
    (hlen : 4 * (encodedIn b).doff.toNat ≤ b.length) :
    parse.run ⟨b, .noError⟩ =
      ((.noError, encodedIn b), ⟨b.drop (4 * (encodedIn b).doff.toNat), .noError⟩) := by
  have hlong : ¬ (encodedIn b).doff < 5 := by
    rw [lt_five_iff]
    omega
  have hrest : 4 * (encodedIn b).doff.toNat - baseLength ≤ (b.drop 20).length := by
    rw [List.length_drop, baseLength]
    omega
  have hend : 20 + (4 * (encodedIn b).doff.toNat - baseLength) = 4 * (encodedIn b).doff.toNat := by
    rw [baseLength]
    omega
  rw [parse, reads_parseFields.run_bind (by omega), if_neg hlong,
    (reads_removePrefix _).run_bind hrest, List.drop_drop, hend]
  rfl

theorem sticky_tail (h : TCPHeader) : Sticky (do
    let p ← get
    if p.error ≠ .noError then return (p.error, h)
    return (.noError, h)) :=
  Sticky.get.bind fun _ => .ite (.pure _) (.pure _)

theorem parse_run_of_lt (hlen : b.length < 20 ∨
    5 ≤ (encodedIn b).doff.toNat ∧ b.length < 4 * (encodedIn b).doff.toNat) :
    (parse.run ⟨b, .noError⟩).2.error ≠ .noError := by
  by_cases hb : b.length < 20
  · rw [parse]
    refine reads_parseFields.run_bind_error hb fun h => ?_
    exact .ite (.pure _) ((reads_removePrefix _).sticky.bind fun _ => sticky_tail h)
  · obtain ⟨hd, hlen⟩ := hlen.resolve_left hb
    have hlong : ¬ (encodedIn b).doff < 5 := by
      rw [lt_five_iff]
      omega
    have hrest : (b.drop 20).length < 4 * (encodedIn b).doff.toNat - baseLength := by
      rw [List.length_drop, baseLength]
      omega
    rw [parse, reads_parseFields.run_bind (by omega), if_neg hlong]
    exact (reads_removePrefix _).run_bind_error hrest fun _ => sticky_tail _

end Parse

section Serialize
variable {h : TCPHeader} (rest : List Byte)

/-- The bytes of a header before and after its checksum. -/
def front (h : TCPHeader) : List Byte :=
  encode 2 h.sport.toNat ++ (encode 2 h.dport.toNat ++ (encode 4 h.seqno.rawValue.toNat ++
    (encode 4 h.ackno.rawValue.toNat ++ (encode 1 (h.doff <<< 4).toNat ++
      (encode 1 h.flagByte.toNat ++ encode 2 h.win.toNat)))))

def back (h : TCPHeader) : List Byte :=
  encode 2 h.uptr.toNat ++ List.replicate (4 * h.doff.toNat - baseLength) 0

theorem serialize_eq (hd : 5 ≤ h.doff.toNat) :
    h.serialize = .ok (h.front ++ (encode 2 h.cksum.toNat ++ h.back)) := by
  have hlong : ¬ h.doff < 5 := by
    rw [lt_five_iff]
    omega
  rw [TCPHeader.serialize, if_neg hlong]
  simp only [NetUnparser.u8, NetUnparser.u16, NetUnparser.u32, NetUnparser.unparseInt_eq,
    List.nil_append, List.append_assoc]
  rw [resize_of_le]
  · simp [front, back, baseLength]
  · simp
    omega

theorem serialize_cksum (h : TCPHeader) (cksum : UInt16) (hd : 5 ≤ h.doff.toNat) :
    TCPHeader.serialize { h with cksum } = .ok (h.front ++ (encode 2 cksum.toNat ++ h.back)) :=
  serialize_eq (h := { h with cksum }) hd

theorem length_front : h.front.length = 16 := by simp [front]

theorem length_back (hd : 5 ≤ h.doff.toNat) : h.back.length = 4 * h.doff.toNat - 18 := by
  simp [back, baseLength]
  omega

theorem packFlags_bits : ∀ urg ack psh rst syn fin : Bool,
    let byte := (packFlags urg ack psh rst syn fin).toNat
    byte.testBit 5 = urg ∧ byte.testBit 4 = ack ∧ byte.testBit 3 = psh ∧ byte.testBit 2 = rst ∧
      byte.testBit 1 = syn ∧ byte.testBit 0 = fin := by
  decide

theorem toNat_doff_shift (hd : h.doff.toNat ≤ 15) :
    UInt8.ofNat ((h.doff <<< 4).toNat / 16) = h.doff := by
  apply UInt8.toNat_inj.mp
  simp [Nat.shiftLeft_eq]
  omega

theorem encodedIn_serialized (hd : h.doff.toNat ≤ 15) :
    encodedIn (h.front ++ (encode 2 h.cksum.toNat ++ h.back) ++ rest) = h := by
  obtain ⟨hurg, hack, hpsh, hrst, hsyn, hfin⟩ :=
    packFlags_bits h.urg h.ack h.psh h.rst h.syn h.fin
  rw [encodedIn]
  simp only [front, flagByte, back, List.append_assoc, field_encode_of_le, field_encode_one,
    field_encode_two, field_encode_four, Nat.reduceLeDiff, Nat.reduceSub, UInt16.ofNat_toNat,
    UInt32.ofNat_toNat, toNat_doff_shift hd, hurg, hack, hpsh, hrst, hsyn, hfin]

end Serialize

end TCPHeader

namespace TCPSegment
open TCPHeader

def parse (seg : TCPSegment) (buffer : Buffer) (datagramLayerChecksum : UInt32) :
    ParseResult × TCPSegment :=
  let check := InternetChecksum.add { sum := datagramLayerChecksum } buffer
  if check.value ≠ 0 then (.badChecksum, seg)
  else
    -- the header's own verdict is not looked at
    let r := TCPHeader.parse.run { buffer }
    (r.2.error, { header := r.1.2, payload := r.2.buffer })

def serialize (seg : TCPSegment) (datagramLayerChecksum : UInt32) : Except String BufferList := do
  let headerOut := { seg.header with cksum := 0 }
  let check := InternetChecksum.add { sum := datagramLayerChecksum } (← headerOut.serialize)
  let check := check.add seg.payload
  let headerOut := { headerOut with cksum := check.value }
  return [← headerOut.serialize] ++ [seg.payload]

/-- What `parse` is meant to accept. -/
structure WellFormed (b : List Byte) (ps : UInt32) : Prop where
  checksum_eq : checksum (ps.toNat + wordSum false b) = 0
  header_fits : 20 ≤ b.length
  doff_ge : 5 ≤ field b 12 1 / 16
  doff_fits : 4 * (field b 12 1 / 16) ≤ b.length

section
variable {b : List Byte} {ps : UInt32}

theorem toNat_doff (b : List Byte) : (encodedIn b).doff.toNat = field b 12 1 / 16 := by
  have hlt := field_lt b 12 1
  simp [encodedIn]
  omega

theorem parse_of_checksum_ne (seg : TCPSegment) (hb : b.length ≤ 65535) (hps : ps.toNat < 2 ^ 31)
    (h : checksum (ps.toNat + wordSum false b) ≠ 0) : seg.parse b ps = (.badChecksum, seg) := by
  rw [parse, if_pos (mt (InternetChecksum.value_add_eq_zero_iff ps b hps hb).mp h)]

theorem parse_of_checksum_eq (seg : TCPSegment) (hb : b.length ≤ 65535) (hps : ps.toNat < 2 ^ 31)
    (h : checksum (ps.toNat + wordSum false b) = 0) :
    seg.parse b ps = ((TCPHeader.parse.run ⟨b, .noError⟩).2.error,
      ⟨(TCPHeader.parse.run ⟨b, .noError⟩).1.2, (TCPHeader.parse.run ⟨b, .noError⟩).2.buffer⟩) := by
  rw [parse, if_neg (not_not_intro ((InternetChecksum.value_add_eq_zero_iff ps b hps hb).mpr h))]

theorem WellFormed.parse_eq (h : WellFormed b ps) (seg : TCPSegment) (hb : b.length ≤ 65535)
    (hps : ps.toNat < 2 ^ 31) :
    seg.parse b ps = (.noError, ⟨encodedIn b, b.drop (4 * (field b 12 1 / 16))⟩) := by
  have hrun := parse_run_of_le (b := b)
  rw [toNat_doff] at hrun
  rw [parse_of_checksum_eq seg hb hps h.checksum_eq, hrun h.doff_ge h.doff_fits]

/-- `parse` accepts the well-formed segments and no others, and returns what they spell out. -/
def ParsesExactly (seg : TCPSegment) (b : List Byte) (ps : UInt32) : Prop :=
  ((seg.parse b ps).1 = .noError ↔ WellFormed b ps) ∧
    ((seg.parse b ps).1 = .noError →
      (seg.parse b ps).2 = ⟨encodedIn b, b.drop (4 * (field b 12 1 / 16))⟩)

/-- The one kind of malformed segment that is accepted has a data offset below five. -/
theorem segment_parsesExactly_iff (seg : TCPSegment) (hb : b.length ≤ 65535)
    (hps : ps.toNat < 2 ^ 31) :
    ParsesExactly seg b ps ↔
      ¬ (checksum (ps.toNat + wordSum false b) = 0 ∧ 20 ≤ b.length ∧ field b 12 1 / 16 < 5) := by
  constructor
  · rintro ⟨haccepts, -⟩ ⟨hsum, hlen, hd⟩
    have hrun := parse_run_of_lt_five (b := b) hlen
    rw [toNat_doff] at hrun
    have hok : (seg.parse b ps).1 = .noError := by
      rw [parse_of_checksum_eq seg hb hps hsum, hrun hd]
    have hge := (haccepts.mp hok).doff_ge
    omega
  · intro hbad
    have hwf : (seg.parse b ps).1 = .noError → WellFormed b ps := by
      intro hok
      by_cases hsum : checksum (ps.toNat + wordSum false b) = 0
      · have hshort := parse_run_of_lt (b := b)
        rw [parse_of_checksum_eq seg hb hps hsum] at hok
        rw [toNat_doff] at hshort
        generalize TCPHeader.parse.run ⟨b, .noError⟩ = r at hok hshort
        rw [imp_not_comm] at hshort
        have hfits := hshort hok
        rw [not_or, not_and] at hfits
        exact ⟨hsum, by omega, by omega, by omega⟩
      · rw [parse_of_checksum_ne seg hb hps hsum] at hok
        cases hok
    refine ⟨⟨hwf, fun h => ?_⟩, fun hok => ?_⟩
    · rw [h.parse_eq seg hb hps]
    · rw [(hwf hok).parse_eq seg hb hps]

/-- Twenty bytes with data offset zero whose sum is all ones. -/
def headless : List Byte := [0xff, 0xff] ++ List.replicate 18 0

theorem not_parsesExactly_headless : ¬ ParsesExactly {} headless 0 := by
  intro h
  have hwf := h.1.mp (by decide)
  exact absurd hwf.doff_ge (by decide)

/-- A bare header, with data offset five. -/
def bareHeader : List Byte := List.replicate 12 0 ++ [0x50, 0, 0, 0, 0xaf, 0xff, 0, 0]

theorem parsesExactly_bareHeader : ParsesExactly {} bareHeader 0 :=
  (segment_parsesExactly_iff {} (by decide) (by decide)).mpr (by decide)

end

section RoundTrip
variable {seg : TCPSegment} {ps : UInt32}

/-- The bytes of a segment that carries the checksum `cksum`. -/
def wire (seg : TCPSegment) (cksum : UInt16) : List Byte :=
  seg.header.front ++ (encode 2 cksum.toNat ++ seg.header.back) ++ seg.payload

theorem wordSum_wire (seg : TCPSegment) (cksum : UInt16) :
    wordSum false (seg.wire cksum) = wordSum false (seg.wire 0) + cksum.toNat := by
  rw [wire, wire, List.append_assoc, List.append_assoc, List.append_assoc, List.append_assoc]
  exact wordSum_word ⟨8, length_front⟩ _ cksum.toNat_lt

theorem length_wire (hd : 5 ≤ seg.header.doff.toNat) (cksum : UInt16) :
    (seg.wire cksum).length = 4 * seg.header.doff.toNat + seg.payload.length := by
  simp only [wire, List.length_append, length_front, length_encode, length_back hd]
  omega

theorem encodedIn_wire (hd : seg.header.doff.toNat ≤ 15) (cksum : UInt16) :
    encodedIn (seg.wire cksum) = { seg.header with cksum } :=
  encodedIn_serialized (h := { seg.header with cksum }) seg.payload hd

theorem drop_wire (hd : 5 ≤ seg.header.doff.toNat) (cksum : UInt16) :
    (seg.wire cksum).drop (4 * seg.header.doff.toNat) = seg.payload := by
  rw [wire]
  apply List.drop_left'
  simp only [List.length_append, length_front, length_encode, length_back hd]
  omega

/-- The checksum `serialize` computes. -/
def cksumFor (seg : TCPSegment) (ps : UInt32) : UInt16 :=
  (InternetChecksum.add { sum := ps } (seg.wire 0)).value

theorem serialize_eq (seg : TCPSegment) (ps : UInt32) (hd : 5 ≤ seg.header.doff.toNat) :
    seg.serialize ps = .ok [seg.header.front ++
      (encode 2 (seg.cksumFor ps).toNat ++ seg.header.back), seg.payload] := by
  rw [serialize]
  simp only [serialize_cksum seg.header _ hd, bind, Except.bind, pure, Except.pure,
    List.cons_append, List.nil_append, cksumFor, wire, InternetChecksum.add_append]

/-- With the computed checksum in it the segment sums up. -/
theorem checksum_wire (hd : 5 ≤ seg.header.doff.toNat)
    (hlen : 4 * seg.header.doff.toNat + seg.payload.length ≤ 65535) (hps : ps.toNat < 2 ^ 31) :
    checksum (ps.toNat + wordSum false (seg.wire (seg.cksumFor ps))) = 0 := by
  have hcheck : (seg.cksumFor ps).toNat = checksum (ps.toNat + wordSum false (seg.wire 0)) := by
    apply InternetChecksum.toNat_value_add ps _ hps
    rw [length_wire hd]
    exact hlen
  rw [wordSum_wire, ← Nat.add_assoc, hcheck, checksum_add_checksum]

theorem parse_wire (seg₀ seg : TCPSegment) (hd : 5 ≤ seg.header.doff.toNat)
    (hd' : seg.header.doff.toNat ≤ 15)
    (hlen : 4 * seg.header.doff.toNat + seg.payload.length ≤ 65535) (hps : ps.toNat < 2 ^ 31) :
    seg₀.parse (seg.wire (seg.cksumFor ps)) ps =
      (.noError, { seg with header.cksum := seg.cksumFor ps }) := by
  have hlength := length_wire hd (seg.cksumFor ps)
  have hdoff := toNat_doff (seg.wire (seg.cksumFor ps))
  rw [encodedIn_wire hd'] at hdoff
  change seg.header.doff.toNat = _ at hdoff
  have hwf : WellFormed (seg.wire (seg.cksumFor ps)) ps :=
    ⟨checksum_wire hd hlen hps, by omega, by omega, by omega⟩
  rw [hwf.parse_eq seg₀ (by omega) hps, encodedIn_wire hd', ← hdoff, drop_wire hd]

theorem concatenate_serialized (seg : TCPSegment) (cksum : UInt16) :
    BufferList.concatenate [seg.header.front ++ (encode 2 cksum.toNat ++ seg.header.back),
      seg.payload] = seg.wire cksum := by
  simp [BufferList.concatenate, wire]

/-- A serialized segment is parsed to itself, with the checksum filled in. -/
theorem segment_parse_serialize (seg₀ seg : TCPSegment) (ps : UInt32)
    (hd : 5 ≤ seg.header.doff.toNat) (hd' : seg.header.doff.toNat ≤ 15)
    (hlen : 4 * seg.header.doff.toNat + seg.payload.length ≤ 65535) (hps : ps.toNat < 2 ^ 31) :
    ∃ bytes cksum, seg.serialize ps = .ok bytes ∧
      seg₀.parse bytes.concatenate ps = (.noError, { seg with header.cksum := cksum }) := by
  refine ⟨_, seg.cksumFor ps, serialize_eq seg ps hd, ?_⟩
  rw [concatenate_serialized, parse_wire seg₀ seg hd hd' hlen hps]

theorem segment_parse_serialize_odd :
    ∃ bytes cksum, serialize { header := { doff := 6, syn := true }, payload := [1, 2, 3] } 7 =
        .ok bytes ∧
      parse {} bytes.concatenate 7 =
        (.noError, { header := { doff := 6, syn := true, cksum }, payload := [1, 2, 3] }) :=
  segment_parse_serialize {} _ 7 (by decide) (by decide) (by decide) (by decide)

/-- No change of a single byte of a serialized segment gets past the checksum. -/
theorem corrupted_parse_eq (seg₀ seg : TCPSegment) (ps : UInt32) (hd : 5 ≤ seg.header.doff.toNat)
    (hlen : 4 * seg.header.doff.toNat + seg.payload.length ≤ 65535) (hps : ps.toNat < 2 ^ 31) :
    ∃ bytes, seg.serialize ps = .ok bytes ∧
      ∀ (p : ℕ) (old new : Byte), bytes.concatenate[p]? = some old → new ≠ old →
        seg₀.parse (bytes.concatenate.set p new) ps = (.badChecksum, seg₀) := by
  refine ⟨_, serialize_eq seg ps hd, ?_⟩
  rw [concatenate_serialized]
  intro p old new hold hnew
  have hfits : ((seg.wire (seg.cksumFor ps)).set p new).length ≤ 65535 := by
    rw [List.length_set, length_wire hd]
    exact hlen
  apply parse_of_checksum_ne seg₀ hfits hps
  exact checksum_set_ne_zero _ hold hnew (checksum_wire hd hlen hps)

theorem corrupted_parse_eq_last :
    ∃ bytes, serialize { header := { doff := 5, fin := true }, payload := [1, 2, 3] } 7 = .ok bytes ∧
      ∀ (p : ℕ) (old new : Byte), bytes.concatenate[p]? = some old → new ≠ old →
        parse {} (bytes.concatenate.set p new) 7 = (.badChecksum, {}) :=
  corrupted_parse_eq {} _ 7 (by decide) (by decide) (by decide)

end RoundTrip

end TCPSegment
end Sponge
