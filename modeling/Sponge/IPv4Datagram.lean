import Sponge.InternetChecksum
import Sponge.NetParser

/-! # IPv4 datagrams on the wire -/
namespace Sponge
open BigEndian OnesComplement NetParser

structure IPv4Header where
  ver : UInt8 := 4
  hlen : UInt8 := 5
  tos : UInt8 := 0
  len : UInt16 := 0
  id : UInt16 := 0
  df : Bool := true
  mf : Bool := false
  offset : UInt16 := 0
  ttl : UInt8 := 128
  proto : UInt8 := 6
  cksum : UInt16 := 0
  src : UInt32 := 0
  dst : UInt32 := 0
  deriving DecidableEq

namespace IPv4Header

/-- `IPv4Header::LENGTH`, the length of a header without options. -/
def baseLength : ℕ := 20

def protoTCP : UInt8 := 6

/-- The fields of the header, in the order in which they are read. -/
def parseFields : StateM NetParser IPv4Header := do
  let firstByte ← u8
  let tos ← u8
  let len ← u16
  let id ← u16
  let foVal ← u16
  let ttl ← u8
  let proto ← u8
  let cksum ← u16
  let src ← u32
  let dst ← u32
  return {
    ver := firstByte >>> 4
    hlen := firstByte &&& 0x0f
    tos, len, id
    df := foVal &&& 0x4000 ≠ 0
    mf := foVal &&& 0x2000 ≠ 0
    offset := foVal &&& 0x1fff
    ttl, proto, cksum, src, dst }

/-- What `parse` does with the fields of `header`, read from the bytes `original`: it checks the
sizes and the version, skips the options, and takes the checksum over the whole header. -/
def checkFields (original : Buffer) (header : IPv4Header) :
    StateM NetParser (ParseResult × IPv4Header) := do
  if original.length < 4 * header.hlen.toNat then return (.packetTooShort, header)
  if header.ver ≠ 4 then return (.wrongIPVersion, header)
  if header.hlen < 5 then return (.headerTooShort, header)
  if original.length ≠ header.len.toNat then return (.truncatedPacket, header)
  removePrefix (header.hlen.toNat * 4 - baseLength)
  let p ← get
  if p.error ≠ .noError then return (p.error, header)
  let check := InternetChecksum.add {} (original.take (4 * header.hlen.toNat))
  if check.value ≠ 0 then return (.badChecksum, header)
  return (.noError, header)

def parse (h : IPv4Header) : StateM NetParser (ParseResult × IPv4Header) := do
  let p ← get
  if p.buffer.length < baseLength then return (.packetTooShort, h)
  let header ← parseFields
  checkFields p.buffer header

def packFirst (ver hlen : UInt8) : UInt8 := (ver <<< 4) ||| (hlen &&& 0xf)

def packOffset (df mf : Bool) (offset : UInt16) : UInt16 :=
  (if df then 0x4000 else 0) ||| (if mf then 0x2000 else 0) ||| (offset &&& 0x1fff)

def serialize (h : IPv4Header) : Except String (List Byte) :=
  if h.ver ≠ 4 then .error "wrong IP version"
  else if 4 * h.hlen.toNat < baseLength then .error "IP header too short"
  else
    let ret := NetUnparser.u8 [] (packFirst h.ver h.hlen)
    let ret := NetUnparser.u8 ret h.tos
    let ret := NetUnparser.u16 ret h.len
    let ret := NetUnparser.u16 ret h.id
    let ret := NetUnparser.u16 ret (packOffset h.df h.mf h.offset)
    let ret := NetUnparser.u8 ret h.ttl
    let ret := NetUnparser.u8 ret h.proto
    let ret := NetUnparser.u16 ret h.cksum
    let ret := NetUnparser.u32 ret h.src
    let ret := NetUnparser.u32 ret h.dst
    .ok (resize ret (4 * h.hlen.toNat))

/-- The result is cut to 16 bits. -/
def payloadLength (h : IPv4Header) : UInt16 := h.len - 4 * h.hlen.toUInt16

def pseudoCksum (h : IPv4Header) : UInt32 :=
  let pcksum : UInt32 := (h.src >>> 16) + (h.src &&& (0xffff : UInt32))
  let pcksum := pcksum + ((h.dst >>> 16) + (h.dst &&& (0xffff : UInt32)))
  let pcksum := pcksum + h.proto.toUInt32
  pcksum + h.payloadLength.toUInt32

/-- The header a byte string spells out. -/
def encodedIn (b : List Byte) : IPv4Header where
  ver := UInt8.ofNat (field b 0 1 / 16)
  hlen := UInt8.ofNat (field b 0 1 % 16)
  tos := UInt8.ofNat (field b 1 1)
  len := UInt16.ofNat (field b 2 2)
  id := UInt16.ofNat (field b 4 2)
  df := (field b 6 2).testBit 14
  mf := (field b 6 2).testBit 13
  offset := UInt16.ofNat (field b 6 2 % 8192)
  ttl := UInt8.ofNat (field b 8 1)
  proto := UInt8.ofNat (field b 9 1)
  cksum := UInt16.ofNat (field b 10 2)
  src := UInt32.ofNat (field b 12 4)
  dst := UInt32.ofNat (field b 16 4)

theorem reads_parseFields : Reads 20 encodedIn parseFields := by
  refine (reads_u8.bind fun firstByte => reads_u8.bind fun tos => reads_u16.bind fun len =>
    reads_u16.bind fun id => reads_u16.bind fun foVal => reads_u8.bind fun ttl =>
    reads_u8.bind fun proto => reads_u16.bind fun cksum => reads_u32.bind fun src =>
    reads_u32.bind fun dst => Reads.pure _).congr ?_
  intro b
  have hver := byte_shiftRight_four (field_lt b 0 1)
  have hhlen := byte_and_fifteen (field b 0 1)
  have hdf := word_testBit (field b 6 2) (i := 14) (by decide)
  have hmf := word_testBit (field b 6 2) (i := 13) (by decide)
  have hoffset := word_and_thirteen (field b 6 2)
  rw [encodedIn, ← hver, ← hhlen, ← hdf, ← hmf, ← hoffset]
  simp only [field, List.drop_drop]
  rfl

theorem toNat_ver (b : List Byte) : (encodedIn b).ver.toNat = field b 0 1 / 16 := by
  have hlt := field_lt b 0 1
  simp [encodedIn]
  omega

theorem toNat_hlen (b : List Byte) : (encodedIn b).hlen.toNat = field b 0 1 % 16 := by
  simp [encodedIn]
  omega

theorem toNat_len (b : List Byte) : (encodedIn b).len.toNat = field b 2 2 := by
  have hlt := field_lt b 2 2
  simp [encodedIn]
  omega

theorem toNat_payloadLength (h : IPv4Header) :
    h.payloadLength.toNat = (65536 + h.len.toNat - 4 * h.hlen.toNat) % 65536 := by
  have hhlen := h.hlen.toNat_lt
  simp [payloadLength, UInt16.toNat_sub]
  omega

/-- The pseudo header does not contain the checksum. -/
theorem pseudoCksum_cksum (h : IPv4Header) (cksum : UInt16) :
    pseudoCksum { h with cksum } = h.pseudoCksum := rfl

theorem pseudoCksum_lt (h : IPv4Header) : h.pseudoCksum.toNat < 2 ^ 31 := by
  have hsrc := InternetChecksum.toNat_turn h.src
  have hdst := InternetChecksum.toNat_turn h.dst
  have hsrc' := h.src.toNat_lt
  have hdst' := h.dst.toNat_lt
  have hproto := h.proto.toNat_lt
  have hlen := h.payloadLength.toNat_lt
  simp only [pseudoCksum, UInt32.toNat_add, UInt8.toNat_toUInt32, UInt16.toNat_toUInt32]
    at hsrc hdst ⊢
  omega

/-- Version, header length and total length are right. -/
structure Framed (b : List Byte) : Prop where
  version_eq : field b 0 1 / 16 = 4
  ihl_ge : 5 ≤ field b 0 1 % 16
  ihl_fits : 4 * (field b 0 1 % 16) ≤ b.length
  len_eq : field b 2 2 = b.length

instance (b : List Byte) : Decidable (Framed b) :=
  decidable_of_iff (field b 0 1 / 16 = 4 ∧ 5 ≤ field b 0 1 % 16 ∧
      4 * (field b 0 1 % 16) ≤ b.length ∧ field b 2 2 = b.length)
    ⟨fun h => ⟨h.1, h.2.1, h.2.2.1, h.2.2.2⟩, fun h => ⟨h.1, h.2, h.3, h.4⟩⟩

section Parse
variable {b : List Byte} (h : IPv4Header)

theorem ver_eq_four_iff (h : IPv4Header) : h.ver = 4 ↔ h.ver.toNat = 4 := UInt8.toNat_inj.symm

theorem lt_five_iff (h : IPv4Header) : h.hlen < 5 ↔ h.hlen.toNat < 5 := UInt8.lt_iff_toNat_lt

theorem parse_run_of_short (hb : b.length < 20) :
    (parse h).run ⟨b, .noError⟩ = ((.packetTooShort, h), ⟨b, .noError⟩) := by
  change (if b.length < 20 then pure (.packetTooShort, h) else
    parseFields >>= checkFields b : StateM NetParser _).run _ = _
  rw [if_pos hb]
  rfl

theorem parse_run_of_le (hb : 20 ≤ b.length) :
    (parse h).run ⟨b, .noError⟩ = (checkFields b (encodedIn b)).run ⟨b.drop 20, .noError⟩ := by
  change (if b.length < 20 then pure (.packetTooShort, h) else
    parseFields >>= checkFields b : StateM NetParser _).run _ = _
  rw [if_neg (Nat.not_lt.mpr hb), reads_parseFields.run_bind hb]

/-- A framed datagram loses its header, whatever the checksum says. -/
theorem checkFields_of_framed (hf : Framed b) :
    (checkFields b (encodedIn b)).run ⟨b.drop 20, .noError⟩ =
      ((if checksum (wordSum false (b.take (4 * (field b 0 1 % 16)))) = 0 then .noError
        else .badChecksum, encodedIn b), ⟨b.drop (4 * (field b 0 1 % 16)), .noError⟩) := by
  have hver := toNat_ver b
  have hhlen := toNat_hlen b
  have hlen := toNat_len b
  obtain ⟨hversion, hge, hfits, htotal⟩ := hf
  have hlong : ¬ (encodedIn b).hlen < 5 := by
    rw [lt_five_iff]
    omega
  have hrest : (encodedIn b).hlen.toNat * 4 - baseLength ≤ (b.drop 20).length := by
    rw [List.length_drop, baseLength]
    omega
  have hend : 20 + ((encodedIn b).hlen.toNat * 4 - baseLength) = 4 * (field b 0 1 % 16) := by
    rw [baseLength]
    omega
  have hzero := InternetChecksum.value_add_eq_zero_iff 0 (b.take (4 * (field b 0 1 % 16)))
    (by decide) (by simp; omega)
  rw [UInt32.toNat_zero, Nat.zero_add] at hzero
  rw [checkFields, if_neg (by omega), if_neg (not_not_intro ((ver_eq_four_iff _).mpr (by omega))),
    if_neg hlong, if_neg (by omega), (reads_removePrefix _).run_bind hrest, List.drop_drop, hend,
    hhlen]
  change (if (InternetChecksum.add {} _).value ≠ 0 then pure (.badChecksum, _) else
    pure (.noError, _) : StateM NetParser (ParseResult × IPv4Header)).run _ = _
  by_cases hsum : checksum (wordSum false (b.take (4 * (field b 0 1 % 16)))) = 0
  · rw [if_neg (not_not_intro (hzero.mpr hsum)), if_pos hsum]
    rfl
  · rw [if_pos (mt hzero.mp hsum), if_neg hsum]
    rfl

theorem checkFields_of_not_framed (hf : ¬ Framed b) :
    ∃ r, r ≠ .noError ∧ (checkFields b (encodedIn b)).run ⟨b.drop 20, .noError⟩ =
      ((r, encodedIn b), ⟨b.drop 20, .noError⟩) := by
  have hver := toNat_ver b
  have hhlen := toNat_hlen b
  have hlen := toNat_len b
  rw [checkFields]
  split
  · exact ⟨_, by decide, rfl⟩
  split
  · exact ⟨_, by decide, rfl⟩
  split
  · exact ⟨_, by decide, rfl⟩
  split
  · exact ⟨_, by decide, rfl⟩
  next hsize hversion hshort htotal =>
  rw [ne_eq, not_not, ver_eq_four_iff] at hversion
  rw [lt_five_iff] at hshort
  exact absurd ⟨by omega, by omega, by omega, by omega⟩ hf

end Parse

section Serialize
variable {h : IPv4Header} (rest : List Byte)

/-- The bytes of a header before and after its checksum. -/
def front (h : IPv4Header) : List Byte :=
  encode 1 (packFirst h.ver h.hlen).toNat ++ (encode 1 h.tos.toNat ++ (encode 2 h.len.toNat ++
    (encode 2 h.id.toNat ++ (encode 2 (packOffset h.df h.mf h.offset).toNat ++
      (encode 1 h.ttl.toNat ++ encode 1 h.proto.toNat)))))

def back (h : IPv4Header) : List Byte :=
  encode 4 h.src.toNat ++ (encode 4 h.dst.toNat ++
    List.replicate (4 * h.hlen.toNat - baseLength) 0)

theorem serialize_eq (hver : h.ver = 4) (hhlen : 5 ≤ h.hlen.toNat) :
    h.serialize = .ok (h.front ++ (encode 2 h.cksum.toNat ++ h.back)) := by
  rw [IPv4Header.serialize, if_neg (not_not_intro hver), if_neg (by rw [baseLength]; omega)]
  simp only [NetUnparser.u8, NetUnparser.u16, NetUnparser.u32, NetUnparser.unparseInt_eq,
    List.nil_append, List.append_assoc]
  rw [resize_of_le]
  · simp [front, back, baseLength]
  · simp
    omega

theorem serialize_cksum (h : IPv4Header) (cksum : UInt16) (hver : h.ver = 4)
    (hhlen : 5 ≤ h.hlen.toNat) :
    IPv4Header.serialize { h with cksum } = .ok (h.front ++ (encode 2 cksum.toNat ++ h.back)) :=
  serialize_eq (h := { h with cksum }) hver hhlen

theorem serialize_isOk (h : IPv4Header) :
    (∃ bytes, h.serialize = .ok bytes) ↔ h.ver = 4 ∧ 5 ≤ h.hlen.toNat := by
  constructor
  · rintro ⟨bytes, hok⟩
    rw [IPv4Header.serialize] at hok
    split at hok
    · cases hok
    · next hver =>
      split at hok
      · cases hok
      · next hhlen =>
        rw [baseLength] at hhlen
        exact ⟨not_not.mp hver, by omega⟩
  · rintro ⟨hver, hhlen⟩
    exact ⟨_, serialize_eq hver hhlen⟩

theorem length_front : h.front.length = 10 := by simp [front]

theorem length_back (hhlen : 5 ≤ h.hlen.toNat) : h.back.length = 4 * h.hlen.toNat - 12 := by
  simp [back, baseLength]
  omega

/-- The version and the header length come out of the first byte again. -/
theorem packFirst_fields {ver hlen : UInt8} (hver : ver = 4) (hhlen : hlen.toNat ≤ 15) :
    (packFirst ver hlen).toNat / 16 = ver.toNat ∧ (packFirst ver hlen).toNat % 16 = hlen.toNat := by
  have hor := Nat.two_pow_add_eq_or_of_lt (b := hlen.toNat) (i := 4) (by omega) 4
  have hmask : hlen.toNat &&& 15 = hlen.toNat % 16 := Nat.and_two_pow_sub_one_eq_mod _ 4
  have hmod : hlen.toNat % 16 = hlen.toNat := Nat.mod_eq_of_lt (by omega)
  have hpack : (packFirst 4 hlen).toNat = 64 + hlen.toNat := by
    simp [packFirst, hmask, hmod]
    exact hor.symm
  subst hver
  rw [hpack]
  exact ⟨by simp; omega, by omega⟩

theorem toNat_packOffset (df mf : Bool) {offset : UInt16} (hoffset : offset.toNat < 2 ^ 13) :
    (packOffset df mf offset).toNat =
      (if df then 16384 else 0) + (if mf then 8192 else 0) + offset.toNat := by
  have hor (a : ℕ) := Nat.two_pow_add_eq_or_of_lt hoffset a
  have hmask : offset.toNat &&& 8191 = offset.toNat % 8192 := Nat.and_two_pow_sub_one_eq_mod _ 13
  have hmod : offset.toNat % 8192 = offset.toNat := Nat.mod_eq_of_lt hoffset
  cases df <;> cases mf <;> simp [packOffset, hmask, hmod]
  · exact (hor 1).symm
  · exact (hor 2).symm
  · exact (hor 3).symm

/-- The flags and the offset come out of their common word again. -/
theorem packOffset_fields (df mf : Bool) {offset : UInt16} (hoffset : offset.toNat < 2 ^ 13) :
    (packOffset df mf offset).toNat.testBit 14 = df ∧
      (packOffset df mf offset).toNat.testBit 13 = mf ∧
      (packOffset df mf offset).toNat % 8192 = offset.toNat := by
  rw [toNat_packOffset df mf hoffset, Nat.testBit_eq_decide_div_mod_eq,
    Nat.testBit_eq_decide_div_mod_eq]
  cases df <;> cases mf <;> simp <;> omega

theorem encodedIn_serialized (hver : h.ver = 4) (hhlen : h.hlen.toNat ≤ 15)
    (hoffset : h.offset.toNat < 2 ^ 13) :
    encodedIn (h.front ++ (encode 2 h.cksum.toNat ++ h.back) ++ rest) = h := by
  obtain ⟨hquot, hrem⟩ := packFirst_fields hver hhlen
  obtain ⟨hdf, hmf, hlow⟩ := packOffset_fields h.df h.mf hoffset
  rw [encodedIn]
  simp only [front, back, List.append_assoc, field_encode_of_le, field_encode_one,
    field_encode_two, field_encode_four, Nat.reduceLeDiff, Nat.reduceSub, UInt8.ofNat_toNat,
    UInt16.ofNat_toNat, UInt32.ofNat_toNat, hquot, hrem, hdf, hmf, hlow]

/-- The bytes of a header that carries the checksum `cksum`. -/
def wire (h : IPv4Header) (cksum : UInt16) : List Byte :=
  h.front ++ (encode 2 cksum.toNat ++ h.back)

theorem length_wire (hhlen : 5 ≤ h.hlen.toNat) (cksum : UInt16) :
    (h.wire cksum).length = 4 * h.hlen.toNat := by
  simp only [wire, List.length_append, length_front, length_encode, length_back hhlen]
  omega

theorem wordSum_wire (h : IPv4Header) (cksum : UInt16) :
    wordSum false (h.wire cksum) = wordSum false (h.wire 0) + cksum.toNat :=
  wordSum_word ⟨5, length_front⟩ h.back cksum.toNat_lt

/-- The checksum that goes into a header. -/
def cksumFor (h : IPv4Header) : UInt16 := (InternetChecksum.add {} (h.wire 0)).value

theorem checksum_wire (hhlen : 5 ≤ h.hlen.toNat) (hhlen' : h.hlen.toNat ≤ 15) :
    checksum (wordSum false (h.wire h.cksumFor)) = 0 := by
  have hcheck := InternetChecksum.toNat_value_add 0 (h.wire 0) (by decide)
    (by rw [length_wire hhlen]; omega)
  rw [UInt32.toNat_zero, Nat.zero_add] at hcheck
  change h.cksumFor.toNat = _ at hcheck
  rw [wordSum_wire, hcheck, checksum_add_checksum]

end Serialize

end IPv4Header

structure IPv4Datagram where
  header : IPv4Header := {}
  payload : BufferList := []
  deriving DecidableEq

abbrev InternetDatagram := IPv4Datagram

namespace IPv4Datagram
open IPv4Header

def parse (d : IPv4Datagram) (buffer : Buffer) : ParseResult × IPv4Datagram :=
  -- the header's own verdict is not looked at
  let r := d.header.parse.run { buffer }
  let d : IPv4Datagram := { header := r.1.2, payload := [r.2.buffer] }
  if d.payload.size ≠ d.header.payloadLength.toNat then (.packetTooShort, d) else (r.2.error, d)

def serialize (d : IPv4Datagram) : Except String BufferList := do
  if d.payload.size ≠ d.header.payloadLength.toNat then
    throw "IPv4Datagram::serialize: payload is wrong size"
  let headerOut := { d.header with cksum := 0 }
  let check := InternetChecksum.add {} (← headerOut.serialize)
  let headerOut := { headerOut with cksum := check.value }
  return [← headerOut.serialize] ++ d.payload

section Parse
variable {b : List Byte} (d : IPv4Datagram)

/-- What `parse` is meant to accept. -/
structure WellFormed (b : List Byte) : Prop extends Framed b where
  header_fits : 20 ≤ b.length
  checksum_eq : checksum (wordSum false (b.take (4 * (field b 0 1 % 16)))) = 0

theorem parse_of_short (hb : b.length < 20) :
    d.parse b = (if b.length = d.header.payloadLength.toNat then .noError else .packetTooShort,
      ⟨d.header, [b]⟩) := by
  rw [parse, parse_run_of_short _ hb]
  simp [BufferList.size]
  split <;> rfl

/-- Whatever is accepted has the payload size its header asks for. -/
theorem size_eq_of_parse {d d' : IPv4Datagram} (h : d.parse b = (.noError, d')) :
    d'.payload.size = d'.header.payloadLength.toNat := by
  rw [parse] at h
  generalize d.header.parse.run { buffer := b } = r at h
  split at h
  · cases h
  · next hsize =>
    obtain ⟨-, rfl⟩ := Prod.mk.inj h
    exact not_not.mp hsize

theorem parse_of_framed (hf : Framed b) :
    d.parse b = (.noError, ⟨encodedIn b, [b.drop (4 * (field b 0 1 % 16))]⟩) := by
  have hpayload := toNat_payloadLength (encodedIn b)
  rw [toNat_len, toNat_hlen] at hpayload
  obtain ⟨hversion, hge, hfits, htotal⟩ := hf
  have hlt := field_lt b 2 2
  rw [parse, parse_run_of_le _ (by omega), checkFields_of_framed ⟨hversion, hge, hfits, htotal⟩]
  simp [BufferList.size, hpayload]
  omega

theorem parse_of_not_framed (hb : 20 ≤ b.length) (hf : ¬ Framed b) :
    d.parse b = (if (65536 + field b 2 2 - 4 * (field b 0 1 % 16)) % 65536 = b.length - 20 then
      .noError else .packetTooShort, ⟨encodedIn b, [b.drop 20]⟩) := by
  have hpayload := toNat_payloadLength (encodedIn b)
  rw [toNat_len, toNat_hlen] at hpayload
  obtain ⟨r, -, hrun⟩ := checkFields_of_not_framed hf
  rw [parse, parse_run_of_le _ hb, hrun]
  simp [BufferList.size, hpayload, eq_comm]
  split <;> rfl

/-- `parse` accepts the well-formed datagrams and no others, and returns what they spell out. -/
def ParsesExactly (d : IPv4Datagram) (b : List Byte) : Prop :=
  ((d.parse b).1 = .noError ↔ WellFormed b) ∧
    ((d.parse b).1 = .noError →
      (d.parse b).2 = ⟨encodedIn b, [b.drop (4 * (field b 0 1 % 16))]⟩)

/-- What goes wrong: a bad checksum is accepted, and so is anything else that is wrong with a
header as long as the length field, less the header length field, happens to be right for a payload
that starts after twenty bytes. -/
theorem datagram_parsesExactly_iff (b : List Byte) :
    d.ParsesExactly b ↔
      (b.length < 20 → b.length ≠ d.header.payloadLength.toNat) ∧
      (Framed b → checksum (wordSum false (b.take (4 * (field b 0 1 % 16)))) = 0) ∧
      (20 ≤ b.length → ¬ Framed b →
        (65536 + field b 2 2 - 4 * (field b 0 1 % 16)) % 65536 ≠ b.length - 20) := by
  constructor
  · rintro ⟨haccepts, -⟩
    refine ⟨?_, ?_, ?_⟩
    · intro hb heq
      have hwf := haccepts.mp (by rw [parse_of_short d hb, if_pos heq])
      exact absurd hwf.header_fits (Nat.not_le.mpr hb)
    · intro hf
      exact (haccepts.mp (by rw [parse_of_framed d hf])).checksum_eq
    · intro hb hf heq
      exact hf (haccepts.mp (by rw [parse_of_not_framed d hb hf, if_pos heq])).toFramed
  · rintro ⟨hshort, hsum, hlength⟩
    by_cases hf : Framed b
    · have hfits : 20 ≤ b.length := by
        have hge := hf.ihl_ge
        have hle := hf.ihl_fits
        omega
      rw [ParsesExactly, parse_of_framed d hf]
      exact ⟨⟨fun _ => ⟨hf, hfits, hsum hf⟩, fun _ => rfl⟩, fun _ => rfl⟩
    · have hrefused : (d.parse b).1 = .packetTooShort := by
        by_cases hb : b.length < 20
        · rw [parse_of_short d hb, if_neg (hshort hb)]
        · rw [parse_of_not_framed d (by omega) hf, if_neg (hlength (by omega) hf)]
      rw [ParsesExactly, hrefused]
      exact ⟨⟨(nomatch ·), fun hwf => absurd hwf.toFramed hf⟩, (nomatch ·)⟩

/-- Twenty bytes that claim to be version 6. -/
def versionSix : List Byte := [0x65, 0, 0, 20] ++ List.replicate 16 0

theorem not_parsesExactly_versionSix : ¬ ParsesExactly {} versionSix := by
  intro h
  have hwf := h.1.mp (by decide)
  exact absurd hwf.version_eq (by decide)

end Parse

/-- The datagrams the code is made to send: version 4, a header length that fits its four bits, an
offset that fits its thirteen, and the right total length. -/
structure Sendable (d : IPv4Datagram) : Prop where
  ver_eq : d.header.ver = 4
  hlen_ge : 5 ≤ d.header.hlen.toNat
  hlen_le : d.header.hlen.toNat ≤ 15
  offset_lt : d.header.offset.toNat < 2 ^ 13
  len_eq : d.header.len.toNat = 4 * d.header.hlen.toNat + d.payload.size

section Serialize
variable {d : IPv4Datagram}

theorem serialize_eq (hver : d.header.ver = 4) (hhlen : 5 ≤ d.header.hlen.toNat)
    (hsize : d.payload.size = d.header.payloadLength.toNat) :
    d.serialize = .ok (d.header.wire d.header.cksumFor :: d.payload) := by
  rw [serialize, if_neg (not_not_intro hsize)]
  simp only [serialize_cksum d.header _ hver hhlen, bind, Except.bind, pure, Except.pure,
    List.cons_append, List.nil_append, cksumFor, wire]

/-- `serialize` throws exactly on a wrong payload size, version or header length. -/
theorem serialize_isOk (d : IPv4Datagram) :
    (∃ bytes, d.serialize = .ok bytes) ↔
      d.payload.size = d.header.payloadLength.toNat ∧ d.header.ver = 4 ∧
        5 ≤ d.header.hlen.toNat := by
  constructor
  · rintro ⟨bytes, hok⟩
    rw [serialize] at hok
    by_cases hsize : d.payload.size = d.header.payloadLength.toNat
    · rw [if_neg (not_not_intro hsize)] at hok
      have hheader := IPv4Header.serialize_isOk { d.header with cksum := 0 }
      cases hzero : IPv4Header.serialize { d.header with cksum := 0 } with
      | error message =>
        simp only [hzero] at hok
        cases hok
      | ok zero => exact ⟨hsize, hheader.mp ⟨zero, hzero⟩⟩
    · rw [if_pos hsize] at hok
      cases hok
  · rintro ⟨hsize, hver, hhlen⟩
    exact ⟨_, serialize_eq hver hhlen hsize⟩

theorem Sendable.size_eq (h : d.Sendable) : d.payload.size = d.header.payloadLength.toNat := by
  have hlen := h.len_eq
  have hlt := d.header.len.toNat_lt
  rw [toNat_payloadLength]
  omega

section Wire
variable (h : d.Sendable)
include h

theorem Sendable.encodedIn_wire (cksum : UInt16) :
    encodedIn (d.header.wire cksum ++ d.payload.concatenate) = { d.header with cksum } :=
  encodedIn_serialized (h := { d.header with cksum }) _ h.ver_eq h.hlen_le h.offset_lt

theorem Sendable.ihl_wire (cksum : UInt16) :
    field (d.header.wire cksum ++ d.payload.concatenate) 0 1 % 16 = d.header.hlen.toNat := by
  rw [← toNat_hlen, h.encodedIn_wire]

theorem Sendable.framed (cksum : UInt16) :
    Framed (d.header.wire cksum ++ d.payload.concatenate) := by
  have hihl := h.ihl_wire cksum
  have hver := toNat_ver (d.header.wire cksum ++ d.payload.concatenate)
  have hlen := toNat_len (d.header.wire cksum ++ d.payload.concatenate)
  rw [h.encodedIn_wire] at hver hlen
  have hlength : (d.header.wire cksum ++ d.payload.concatenate).length =
      4 * d.header.hlen.toNat + d.payload.size := by
    rw [List.length_append, length_wire h.hlen_ge, BufferList.length_concatenate]
  have hge := h.hlen_ge
  refine ⟨?_, by omega, by omega, ?_⟩
  · rw [← hver]
    exact congrArg UInt8.toNat h.ver_eq
  · rw [← hlen, hlength]
    exact h.len_eq

theorem Sendable.parse_wire (d₀ : IPv4Datagram) :
    d₀.parse (d.header.wire d.header.cksumFor ++ d.payload.concatenate) =
      (.noError, ⟨{ d.header with cksum := d.header.cksumFor }, [d.payload.concatenate]⟩) := by
  rw [parse_of_framed d₀ (h.framed _), h.encodedIn_wire, h.ihl_wire,
    List.drop_left' (length_wire h.hlen_ge _)]

/-- The header parser itself is content with a serialized datagram. -/
theorem Sendable.parse_header (h₀ : IPv4Header) :
    (h₀.parse.run ⟨d.header.wire d.header.cksumFor ++ d.payload.concatenate, .noError⟩).1 =
      (.noError, { d.header with cksum := d.header.cksumFor }) := by
  have hf := h.framed d.header.cksumFor
  have hge := hf.ihl_ge
  have hfits := hf.ihl_fits
  rw [parse_run_of_le h₀ (by omega), checkFields_of_framed hf, h.ihl_wire,
    List.take_left' (length_wire h.hlen_ge _), if_pos (checksum_wire h.hlen_ge h.hlen_le),
    h.encodedIn_wire]

end Wire

/-- A serialized datagram is parsed to itself, with the checksum filled in and the payload in one
piece. -/
theorem datagram_parse_serialize (d₀ d : IPv4Datagram) (h₀ : IPv4Header) (h : d.Sendable) :
    ∃ bytes cksum, d.serialize = .ok bytes ∧
      d₀.parse bytes.concatenate = (.noError, ⟨{ d.header with cksum }, [d.payload.concatenate]⟩) ∧
      (h₀.parse.run ⟨bytes.concatenate, .noError⟩).1 = (.noError, { d.header with cksum }) :=
  ⟨_, d.header.cksumFor, serialize_eq h.ver_eq h.hlen_ge h.size_eq, h.parse_wire d₀,
    h.parse_header h₀⟩

theorem datagram_parse_serialize_options :
    ∃ bytes cksum,
      serialize ⟨{ hlen := 6, len := 27, offset := 8191, mf := true }, [[1, 2], [3]]⟩ = .ok bytes ∧
      parse {} bytes.concatenate =
        (.noError, ⟨{ hlen := 6, len := 27, offset := 8191, mf := true, cksum }, [[1, 2, 3]]⟩) ∧
      ((IPv4Header.parse {}).run ⟨bytes.concatenate, .noError⟩).1 =
        (.noError, { hlen := 6, len := 27, offset := 8191, mf := true, cksum }) :=
  datagram_parse_serialize {} _ {} ⟨by decide, by decide, by decide, by decide, by decide⟩

end Serialize
end IPv4Datagram
end Sponge
