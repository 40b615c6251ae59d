import Sponge.NetParser

/-! # Ethernet frames and ARP messages on the wire -/
namespace Sponge
open BigEndian NetParser

abbrev EthernetAddress := Vector Byte 6

def ethernetBroadcast : EthernetAddress := #v[0xff, 0xff, 0xff, 0xff, 0xff, 0xff]

namespace EthernetAddress

def parse : StateM NetParser EthernetAddress := do
  let b₀ ← u8
  let b₁ ← u8
  let b₂ ← u8
  let b₃ ← u8
  let b₄ ← u8
  let b₅ ← u8
  return #v[b₀, b₁, b₂, b₃, b₄, b₅]

def unparse (s : List Byte) (a : EthernetAddress) : List Byte := a.toList.foldl NetUnparser.u8 s

/-- The address that stands at position `i`. -/
def standingAt (b : List Byte) (i : ℕ) : EthernetAddress :=
  #v[UInt8.ofNat (field b i 1), UInt8.ofNat (field b (i + 1) 1), UInt8.ofNat (field b (i + 2) 1),
    UInt8.ofNat (field b (i + 3) 1), UInt8.ofNat (field b (i + 4) 1),
    UInt8.ofNat (field b (i + 5) 1)]

theorem reads_parse : Reads 6 (standingAt · 0) parse := by
  refine (reads_u8.bind fun b₀ => reads_u8.bind fun b₁ => reads_u8.bind fun b₂ =>
    reads_u8.bind fun b₃ => reads_u8.bind fun b₄ => reads_u8.bind fun b₅ =>
    Reads.pure _).congr ?_
  intro b
  simp only [standingAt, field, List.drop_drop]

theorem standingAt_drop (b : List Byte) (i j : ℕ) :
    standingAt (b.drop i) j = standingAt b (i + j) := by
  simp only [standingAt, field, List.drop_drop, Nat.add_assoc]

theorem toList_standingAt {b : List Byte} {i : ℕ} (h : i + 6 ≤ b.length) :
    (standingAt b i).toList = (b.drop i).take 6 := by
  have hbyte (j : ℕ) (hj : i + j + 1 ≤ b.length) :
      [UInt8.ofNat (field b (i + j) 1)] = (b.drop (i + j)).take 1 := by
    rw [← encode_field hj, encode, encode, pow_zero, Nat.div_one]
  calc (standingAt b i).toList
      = [UInt8.ofNat (field b (i + 0) 1)] ++ ([UInt8.ofNat (field b (i + 1) 1)] ++
          ([UInt8.ofNat (field b (i + 2) 1)] ++ ([UInt8.ofNat (field b (i + 3) 1)] ++
          ([UInt8.ofNat (field b (i + 4) 1)] ++ [UInt8.ofNat (field b (i + 5) 1)])))) := rfl
    _ = (b.drop i).take 6 := by
      rw [hbyte 0 (by omega), hbyte 1 (by omega), hbyte 2 (by omega), hbyte 3 (by omega),
        hbyte 4 (by omega), hbyte 5 (by omega)]
      rw [slice_append b (i + 4) 1 1, slice_append b (i + 3) 1 2, slice_append b (i + 2) 1 3,
        slice_append b (i + 1) 1 4]
      exact slice_append b i 1 5

@[simp] theorem unparse_eq (s : List Byte) (a : EthernetAddress) : unparse s a = s ++ a.toList := by
  rw [unparse]
  induction a.toList generalizing s with
  | nil => simp
  | cons byte bytes ih => simp [ih, NetUnparser.u8, encode]

section Append
variable (a : EthernetAddress) (rest : List Byte) {i : ℕ}

theorem field_of_le (k : ℕ) (h : 6 ≤ i) :
    field (a.toList ++ rest) i k = field rest (i - 6) k := by
  rw [field_append_of_le rest k (by simpa using h), Vector.length_toList]

theorem standingAt_append_of_le {xs : List Byte} (h : xs.length ≤ i) :
    standingAt (xs ++ rest) i = standingAt rest (i - xs.length) := by
  have hfield (j : ℕ) : field (xs ++ rest) (i + j) 1 = field rest (i - xs.length + j) 1 := by
    rw [field_append_of_le rest 1 (by omega), Nat.sub_add_comm h]
  simp only [standingAt, hfield]
  rw [field_append_of_le rest 1 h]

theorem standingAt_of_le (h : 6 ≤ i) :
    standingAt (a.toList ++ rest) i = standingAt rest (i - 6) := by
  rw [standingAt_append_of_le rest (by simpa using h), Vector.length_toList]

theorem standingAt_encode_of_le {len n : ℕ} (h : len ≤ i) :
    standingAt (encode len n ++ rest) i = standingAt rest (i - len) := by
  rw [standingAt_append_of_le rest (by simpa using h), length_encode]

end Append

@[simp] theorem standingAt_append (a : EthernetAddress) (rest : List Byte) :
    standingAt (a.toList ++ rest) 0 = a := by
  obtain ⟨⟨bytes⟩, hsize⟩ := a
  match bytes, hsize with
  | [b₀, b₁, b₂, b₃, b₄, b₅], _ => simp [standingAt, field]

end EthernetAddress

structure EthernetHeader where
  dst : EthernetAddress
  src : EthernetAddress
  type : UInt16
  deriving DecidableEq

namespace EthernetHeader

/-- `EthernetHeader::LENGTH`. -/
def baseLength : ℕ := 14

def typeIPv4 : UInt16 := 0x800

def typeARP : UInt16 := 0x806

def parseFields : StateM NetParser EthernetHeader := do
  let dst ← EthernetAddress.parse
  let src ← EthernetAddress.parse
  let type ← u16
  return { dst, src, type }

def parse (h : EthernetHeader) : StateM NetParser (ParseResult × EthernetHeader) := do
  let p ← get
  if p.buffer.length < baseLength then return (.packetTooShort, h)
  let header ← parseFields
  let p ← get
  return (p.error, header)

def serialize (h : EthernetHeader) : List Byte :=
  let ret := EthernetAddress.unparse [] h.dst
  let ret := EthernetAddress.unparse ret h.src
  NetUnparser.u16 ret h.type

/-- The header a byte string spells out. -/
def encodedIn (b : List Byte) : EthernetHeader where
  dst := EthernetAddress.standingAt b 0
  src := EthernetAddress.standingAt b 6
  type := UInt16.ofNat (field b 12 2)

theorem reads_parseFields : Reads 14 encodedIn parseFields := by
  refine (EthernetAddress.reads_parse.bind fun dst => EthernetAddress.reads_parse.bind fun src =>
    reads_u16.bind fun type => Reads.pure _).congr ?_
  intro b
  simp only [EthernetAddress.standingAt_drop, encodedIn, field, List.drop_drop]

theorem parse_run (h : EthernetHeader) (b : List Byte) :
    h.parse.run ⟨b, .noError⟩ =
      if b.length < 14 then ((.packetTooShort, h), ⟨b, .noError⟩)
      else ((.noError, encodedIn b), ⟨b.drop 14, .noError⟩) := by
  change (if b.length < 14 then pure (.packetTooShort, h) else
    parseFields >>= fun header => get >>= fun p => pure (p.error, header) :
      StateM NetParser _).run _ = _
  split
  · rfl
  · next hb =>
    rw [reads_parseFields.run_bind (Nat.not_lt.mp hb)]
    rfl

theorem serialize_eq (h : EthernetHeader) :
    h.serialize = h.dst.toList ++ (h.src.toList ++ encode 2 h.type.toNat) := by
  simp [serialize, NetUnparser.u16]

theorem encodedIn_serialize (h : EthernetHeader) (rest : List Byte) :
    encodedIn (h.serialize ++ rest) = h := by
  rw [serialize_eq, List.append_assoc, List.append_assoc, encodedIn]
  simp only [EthernetAddress.standingAt_append, EthernetAddress.standingAt_of_le,
    EthernetAddress.field_of_le, field_encode_two, Nat.reduceLeDiff, Nat.reduceSub, le_refl,
    Nat.sub_self, UInt16.ofNat_toNat]

theorem length_serialize (h : EthernetHeader) : h.serialize.length = 14 := by
  simp [serialize_eq]

end EthernetHeader

structure EthernetFrame where
  header : EthernetHeader
  payload : BufferList
  deriving DecidableEq

namespace EthernetFrame

def parse (f : EthernetFrame) (buffer : Buffer) : ParseResult × EthernetFrame :=
  let r := f.header.parse.run { buffer }
  (r.2.error, { header := r.1.2, payload := [r.2.buffer] })

def serialize (f : EthernetFrame) : BufferList := [f.header.serialize] ++ f.payload

theorem parse_of_le (f : EthernetFrame) {b : List Byte} (hb : 14 ≤ b.length) :
    f.parse b = (.noError, ⟨EthernetHeader.encodedIn b, [b.drop 14]⟩) := by
  rw [parse, EthernetHeader.parse_run, if_neg (Nat.not_lt.mpr hb)]

/-- The verdict of the header is not looked at: a frame that is too short for one is accepted,
with the header the object had before. -/
theorem parse_of_lt (f : EthernetFrame) {b : List Byte} (hb : b.length < 14) :
    f.parse b = (.noError, ⟨f.header, [b]⟩) := by
  rw [parse, EthernetHeader.parse_run, if_pos hb]

/-- A frame put on the wire arrives with its payload in one piece. -/
theorem parse_serialize (f₀ f : EthernetFrame) :
    f₀.parse f.serialize.concatenate =
      (.noError, { f with payload := [f.payload.concatenate] }) := by
  have hbytes : f.serialize.concatenate = f.header.serialize ++ f.payload.concatenate := rfl
  have hlen := f.header.length_serialize
  rw [hbytes, parse_of_le _ (by simp [hlen]), EthernetHeader.encodedIn_serialize,
    List.drop_left' hlen]

end EthernetFrame

def ARPMessage.typeEthernet : UInt16 := 1

structure ARPMessage where
  hardwareType : UInt16 := ARPMessage.typeEthernet
  protocolType : UInt16 := EthernetHeader.typeIPv4
  hardwareAddressSize : UInt8 := 6
  protocolAddressSize : UInt8 := 4
  opcode : UInt16 := 0
  senderEthernetAddress : EthernetAddress := #v[0, 0, 0, 0, 0, 0]
  senderIPAddress : UInt32 := 0
  targetEthernetAddress : EthernetAddress := #v[0, 0, 0, 0, 0, 0]
  targetIPAddress : UInt32 := 0
  deriving DecidableEq

namespace ARPMessage

/-- `ARPMessage::LENGTH`. -/
def baseLength : ℕ := 28

def opcodeRequest : UInt16 := 1

def opcodeReply : UInt16 := 2

def supported (m : ARPMessage) : Bool :=
  m.hardwareType == typeEthernet && m.protocolType == EthernetHeader.typeIPv4 &&
    m.hardwareAddressSize == 6 && m.protocolAddressSize == 4 &&
    (m.opcode == opcodeRequest || m.opcode == opcodeReply)

def parseTypes (m : ARPMessage) : StateM NetParser ARPMessage := do
  let hardwareType ← u16
  let protocolType ← u16
  let hardwareAddressSize ← u8
  let protocolAddressSize ← u8
  let opcode ← u16
  return { m with hardwareType, protocolType, hardwareAddressSize, protocolAddressSize, opcode }

def parseAddresses (m : ARPMessage) : StateM NetParser ARPMessage := do
  let senderEthernetAddress ← EthernetAddress.parse
  let senderIPAddress ← u32
  let targetEthernetAddress ← EthernetAddress.parse
  let targetIPAddress ← u32
  return { m with senderEthernetAddress, senderIPAddress, targetEthernetAddress, targetIPAddress }

def parse (m : ARPMessage) (buffer : Buffer) : ParseResult × ARPMessage :=
  if buffer.length < baseLength then (.packetTooShort, m)
  else
    let r := m.parseTypes.run { buffer }
    if !r.1.supported then (.unsupported, r.1)
    else
      let r := r.1.parseAddresses.run r.2
      (r.2.error, r.1)

def serialize (m : ARPMessage) : Except String (List Byte) :=
  if !m.supported then .error
    "ARPMessage::serialize(): unsupported field combination (must be Ethernet/IP, and request or reply)"
  else
    let ret := NetUnparser.u16 [] m.hardwareType
    let ret := NetUnparser.u16 ret m.protocolType
    let ret := NetUnparser.u8 ret m.hardwareAddressSize
    let ret := NetUnparser.u8 ret m.protocolAddressSize
    let ret := NetUnparser.u16 ret m.opcode
    let ret := EthernetAddress.unparse ret m.senderEthernetAddress
    let ret := NetUnparser.u32 ret m.senderIPAddress
    let ret := EthernetAddress.unparse ret m.targetEthernetAddress
    .ok (NetUnparser.u32 ret m.targetIPAddress)

/-- The message with the types, sizes and opcode a byte string spells out. -/
def typesIn (m : ARPMessage) (b : List Byte) : ARPMessage :=
  { m with
    hardwareType := UInt16.ofNat (field b 0 2)
    protocolType := UInt16.ofNat (field b 2 2)
    hardwareAddressSize := UInt8.ofNat (field b 4 1)
    protocolAddressSize := UInt8.ofNat (field b 5 1)
    opcode := UInt16.ofNat (field b 6 2) }

/-- The message with the addresses a byte string spells out. -/
def addressesIn (m : ARPMessage) (b : List Byte) : ARPMessage :=
  { m with
    senderEthernetAddress := EthernetAddress.standingAt b 0
    senderIPAddress := UInt32.ofNat (field b 6 4)
    targetEthernetAddress := EthernetAddress.standingAt b 10
    targetIPAddress := UInt32.ofNat (field b 16 4) }

theorem reads_parseTypes (m : ARPMessage) : Reads 8 m.typesIn m.parseTypes := by
  refine (reads_u16.bind fun hardwareType => reads_u16.bind fun protocolType =>
    reads_u8.bind fun hardwareAddressSize => reads_u8.bind fun protocolAddressSize =>
    reads_u16.bind fun opcode => Reads.pure _).congr ?_
  intro b
  simp only [typesIn, field, List.drop_drop]

theorem reads_parseAddresses (m : ARPMessage) : Reads 20 m.addressesIn m.parseAddresses := by
  refine (EthernetAddress.reads_parse.bind fun senderEthernetAddress =>
    reads_u32.bind fun senderIPAddress => EthernetAddress.reads_parse.bind
    fun targetEthernetAddress => reads_u32.bind fun targetIPAddress => Reads.pure _).congr ?_
  intro b
  simp only [addressesIn, EthernetAddress.standingAt_drop, field, List.drop_drop]

theorem parse_of_supported (m : ARPMessage) {b : List Byte} (hb : 28 ≤ b.length)
    (hs : (m.typesIn b).supported = true) :
    m.parse b = (.noError, (m.typesIn b).addressesIn (b.drop 8)) := by
  rw [parse, baseLength, if_neg (Nat.not_lt.mpr hb), (reads_parseTypes m).enough b (by omega)]
  simp only [hs]
  rw [(reads_parseAddresses _).enough _ (by rw [List.length_drop]; omega)]
  rfl

section RoundTrip
variable {m : ARPMessage}

/-- The bytes of a message before its addresses, and its addresses. -/
def typeBytes (m : ARPMessage) : List Byte :=
  encode 2 m.hardwareType.toNat ++ (encode 2 m.protocolType.toNat ++
    (encode 1 m.hardwareAddressSize.toNat ++ (encode 1 m.protocolAddressSize.toNat ++
      encode 2 m.opcode.toNat)))

def addressBytes (m : ARPMessage) : List Byte :=
  m.senderEthernetAddress.toList ++ (encode 4 m.senderIPAddress.toNat ++
    (m.targetEthernetAddress.toList ++ encode 4 m.targetIPAddress.toNat))

theorem serialize_eq (hs : m.supported = true) :
    m.serialize = .ok (m.typeBytes ++ m.addressBytes) := by
  rw [serialize, hs]
  simp [NetUnparser.u8, NetUnparser.u16, NetUnparser.u32, typeBytes, addressBytes]

theorem length_typeBytes : m.typeBytes.length = 8 := by simp [typeBytes]

theorem length_addressBytes : m.addressBytes.length = 20 := by simp [addressBytes]

theorem typesIn_typeBytes (m₀ : ARPMessage) (rest : List Byte) :
    m₀.typesIn (m.typeBytes ++ rest) = { m with
      senderEthernetAddress := m₀.senderEthernetAddress
      senderIPAddress := m₀.senderIPAddress
      targetEthernetAddress := m₀.targetEthernetAddress
      targetIPAddress := m₀.targetIPAddress } := by
  simp only [typesIn, typeBytes, List.append_assoc, field_encode_of_le, field_encode_one,
    field_encode_two, Nat.reduceLeDiff, Nat.reduceSub, UInt8.ofNat_toNat, UInt16.ofNat_toNat]

theorem addressesIn_addressBytes (m₀ : ARPMessage) (rest : List Byte) :
    m₀.addressesIn (m.addressBytes ++ rest) = { m₀ with
      senderEthernetAddress := m.senderEthernetAddress
      senderIPAddress := m.senderIPAddress
      targetEthernetAddress := m.targetEthernetAddress
      targetIPAddress := m.targetIPAddress } := by
  simp only [addressesIn, addressBytes, List.append_assoc, EthernetAddress.standingAt_append,
    EthernetAddress.standingAt_of_le, EthernetAddress.standingAt_encode_of_le,
    EthernetAddress.field_of_le, field_encode_of_le, field_encode_four, Nat.reduceLeDiff,
    Nat.reduceSub, le_refl, Nat.sub_self, UInt32.ofNat_toNat]

/-- A supported message is parsed back from its bytes, whatever padding follows them. -/
theorem parse_bytes_append (m₀ : ARPMessage) (hs : m.supported = true) (rest : List Byte) :
    m₀.parse (m.typeBytes ++ m.addressBytes ++ rest) = (.noError, m) := by
  have htypes := typesIn_typeBytes (m := m) m₀ (m.addressBytes ++ rest)
  rw [List.append_assoc, parse_of_supported m₀, htypes, List.drop_left' length_typeBytes,
    addressesIn_addressBytes]
  · rw [List.length_append, List.length_append, length_typeBytes, length_addressBytes]
    omega
  · rw [htypes]
    exact hs

theorem parse_bytes (m₀ : ARPMessage) (hs : m.supported = true) :
    m₀.parse (m.typeBytes ++ m.addressBytes) = (.noError, m) := by
  simpa using parse_bytes_append m₀ hs []

end RoundTrip

section Accepted
variable {b : List Byte}

theorem typeBytes_typesIn (m : ARPMessage) (hb : 8 ≤ b.length) :
    (m.typesIn b).typeBytes = b.take 8 := by
  simp only [typeBytes, typesIn]
  rw [encode_two_field (by omega), encode_two_field (by omega), encode_one_field (by omega),
    encode_one_field (by omega), encode_two_field (by omega), slice_append b 5 1 2,
    slice_append b 4 1 3, slice_append b 2 2 4, slice_append b 0 2 6, List.drop_zero]

theorem addressBytes_addressesIn (m : ARPMessage) (hb : 20 ≤ b.length) :
    (m.addressesIn b).addressBytes = b.take 20 := by
  simp only [addressBytes, addressesIn]
  rw [EthernetAddress.toList_standingAt (by omega), encode_four_field (by omega),
    EthernetAddress.toList_standingAt (by omega), encode_four_field (by omega),
    slice_append b 10 6 4, slice_append b 6 4 10, slice_append b 0 6 14, List.drop_zero]

/-- The first eight bytes of a supported message, which differ only in the opcode. -/
def supportedTypes : List (List Byte) := [[0, 1, 8, 0, 6, 4, 0, 1], [0, 1, 8, 0, 6, 4, 0, 2]]

theorem supported_iff_typeBytes (m : ARPMessage) :
    m.supported = true ↔ m.typeBytes ∈ supportedTypes := by
  constructor
  · intro hs
    simp only [supported, Bool.and_eq_true, Bool.or_eq_true, beq_iff_eq] at hs
    obtain ⟨⟨⟨⟨hhardware, hprotocol⟩, hhsize⟩, hpsize⟩, hopcode⟩ := hs
    rw [typeBytes, hhardware, hprotocol, hhsize, hpsize]
    rcases hopcode with hopcode | hopcode
    · rw [hopcode]
      decide
    · rw [hopcode]
      decide
  · intro hmem
    have hself : m.typesIn m.typeBytes = m := by
      simpa using typesIn_typeBytes (m := m) m []
    rw [← hself]
    generalize m.typeBytes = b at hmem
    simp only [supportedTypes, List.mem_cons, List.not_mem_nil, or_false] at hmem
    rcases hmem with rfl | rfl
    · rfl
    · rfl

theorem supported_typesIn (m : ARPMessage) (hb : 8 ≤ b.length) :
    (m.typesIn b).supported = true ↔ b.take 8 ∈ supportedTypes := by
  rw [supported_iff_typeBytes, typeBytes_typesIn m hb]

theorem parse_of_not_supported (m : ARPMessage) (hb : 28 ≤ b.length)
    (hs : (m.typesIn b).supported = false) : (m.parse b).1 = .unsupported := by
  rw [parse, baseLength, if_neg (Nat.not_lt.mpr hb), (reads_parseTypes m).enough b (by omega)]
  simp [hs]

theorem parse_of_lt (m : ARPMessage) (hb : b.length < 28) : m.parse b = (.packetTooShort, m) := by
  rw [parse, baseLength, if_pos hb]

/-- The messages that are accepted, and what they are parsed to. -/
theorem parse_noError_iff (m : ARPMessage) :
    (m.parse b).1 = .noError ↔ 28 ≤ b.length ∧ b.take 8 ∈ supportedTypes := by
  by_cases hb : 28 ≤ b.length
  · have htypes := m.supported_typesIn (b := b) (by omega)
    cases hs : (m.typesIn b).supported with
    | true => simp [parse_of_supported m hb hs, hb, htypes.mp hs]
    | false => simp [parse_of_not_supported m hb hs, ← htypes, hs]
  · simp [parse_of_lt m (Nat.not_le.mp hb), hb]

/-- An accepted message is written back as the bytes it was read from. -/
theorem serialize_parse (m : ARPMessage) (h : (m.parse b).1 = .noError) :
    (m.parse b).2.serialize = .ok (b.take 28) := by
  obtain ⟨hb, htypes⟩ := m.parse_noError_iff.mp h
  have hs := (m.supported_typesIn (by omega)).mpr htypes
  have hrest : 20 ≤ (b.drop 8).length := by
    rw [List.length_drop]
    omega
  have hsame : ((m.typesIn b).addressesIn (b.drop 8)).supported = true := hs
  have hfirst : ((m.typesIn b).addressesIn (b.drop 8)).typeBytes = b.take 8 :=
    m.typeBytes_typesIn (by omega)
  rw [parse_of_supported m hb hs, serialize_eq hsame, hfirst, addressBytes_addressesIn _ hrest]
  exact congrArg Except.ok (slice_append b 0 8 20)

end Accepted

/-- The codecs of ARP messages and of frames are inverse to each other. -/
theorem codecs_inverse :
    (∀ m₀ m : ARPMessage, m.supported = true →
      ∃ bytes, m.serialize = .ok bytes ∧ ∀ rest, m₀.parse (bytes ++ rest) = (.noError, m)) ∧
    (∀ (m₀ : ARPMessage) (b : List Byte),
      ((m₀.parse b).1 = .noError ↔ 28 ≤ b.length ∧ b.take 8 ∈ supportedTypes) ∧
      ((m₀.parse b).1 = .noError → (m₀.parse b).2.serialize = .ok (b.take 28))) ∧
    ∀ f₀ f : EthernetFrame, f₀.parse f.serialize.concatenate =
      (.noError, { f with payload := [f.payload.concatenate] }) := by
  refine ⟨?_, ?_, EthernetFrame.parse_serialize⟩
  · intro m₀ m hs
    exact ⟨_, serialize_eq hs, parse_bytes_append m₀ hs⟩
  · intro m₀ b
    exact ⟨m₀.parse_noError_iff, m₀.serialize_parse⟩

end ARPMessage
end Sponge
