import Sponge.Loops
import Sponge.NetworkInterface
import Sponge.TCPOverIPv4

/-!
# TCP over IPv4 over Ethernet

The adapter reads frames from a device, gives them to a network interface, and writes to the
device whatever the interface wants sent. The device is the list of everything written to it; what
a read returns is an argument.
-/
namespace Sponge
open EthernetHeader

/-- A frame as it is declared, before anything is parsed into it. -/
def EthernetFrame.initial : EthernetFrame where
  header := { dst := Vector.replicate 6 0, src := Vector.replicate 6 0, type := 0 }
  payload := []

structure TCPOverIPv4OverEthernetAdapter extends TCPOverIPv4Adapter where
  tap : List BufferList
  interface : NetworkInterface
  nextHop : Address

namespace TCPOverIPv4OverEthernetAdapter

/-- The device ignores the first frame, so a dummy one is written. -/
def new (base : TCPOverIPv4Adapter) (ethAddress : EthernetAddress) (ipAddress : Address)
    (nextHop : Address) : TCPOverIPv4OverEthernetAdapter where
  toTCPOverIPv4Adapter := base
  tap := [EthernetFrame.initial.serialize]
  interface := .new ethAddress ipAddress
  nextHop

def sendPending (a : TCPOverIPv4OverEthernetAdapter) : TCPOverIPv4OverEthernetAdapter :=
  { a with
    tap := a.interface.framesOut.foldl (fun tap frame => tap ++ [frame.serialize]) a.tap
    interface := { a.interface with framesOut := [] } }

/-- The frame `read` gives to the interface. -/
def frameIn (bytes : Buffer) : Option EthernetFrame :=
  let r := EthernetFrame.initial.parse bytes
  if r.1 ≠ .noError then none else some r.2

def read (a : TCPOverIPv4OverEthernetAdapter) (bytes : Buffer) :
    Except String (Option TCPSegment × TCPOverIPv4OverEthernetAdapter) :=
  match frameIn bytes with
  | none => .ok (none, a)
  | some frame => do
    let (ipDgram, interface) ← (a.interface.recvFrame frame).forget
    let a := { a with interface }.sendPending
    match ipDgram with
    | none => return (none, a)
    | some ipDgram =>
      let (seg, base) ← a.unwrapTCPInIP ipDgram
      return (seg, { a with toTCPOverIPv4Adapter := base })

def tick (a : TCPOverIPv4OverEthernetAdapter) (ms : ℕ) : TCPOverIPv4OverEthernetAdapter :=
  { a with interface := a.interface.tick ms }.sendPending

def write (a : TCPOverIPv4OverEthernetAdapter) (seg : TCPSegment) :
    Except String (TCPSegment × TCPOverIPv4OverEthernetAdapter) := do
  let (ipDgram, seg) ← a.wrapTCPInIP seg
  let interface ← (a.interface.sendDatagram ipDgram a.nextHop).forget
  return (seg, { a with interface }.sendPending)

section Headers

/-- `EthernetFrame::parse` is meant to accept the frames with a complete header and to read the
header from them, and the interface to be given no others. -/
structure ReadsHeaders (f₀ : EthernetFrame) (b : List Byte) : Prop where
  accepts_iff : (f₀.parse b).1 = .noError ↔ 14 ≤ b.length
  parse_eq : (f₀.parse b).1 = .noError → (f₀.parse b).2 = ⟨encodedIn b, [b.drop 14]⟩
  given_eq : ∀ frame, frameIn b = some frame →
    14 ≤ b.length ∧ frame = ⟨encodedIn b, [b.drop 14]⟩

theorem frameIn_eq (b : List Byte) : frameIn b = some (EthernetFrame.initial.parse b).2 := by
  have haccepts : (EthernetFrame.initial.parse b).1 = .noError := by
    by_cases hb : 14 ≤ b.length
    · rw [EthernetFrame.parse_of_le _ hb]
    · rw [EthernetFrame.parse_of_lt _ (Nat.not_le.mp hb)]
  simp [frameIn, haccepts]

/-- A frame that is too short for a header is given to the interface with the header it was
declared with. -/
theorem readsHeaders_iff (f₀ : EthernetFrame) (b : List Byte) :
    ReadsHeaders f₀ b ↔ 14 ≤ b.length := by
  constructor
  · intro h
    exact (h.given_eq _ (frameIn_eq b)).1
  · intro hb
    have hparse := f₀.parse_of_le hb
    refine ⟨?_, ?_, ?_⟩
    · simp [hparse, hb]
    · simp [hparse]
    · intro frame hframe
      rw [frameIn_eq, EthernetFrame.parse_of_le _ hb] at hframe
      cases hframe
      exact ⟨hb, rfl⟩

theorem readsHeaders_bare : ReadsHeaders EthernetFrame.initial (List.replicate 14 0xff) :=
  (readsHeaders_iff EthernetFrame.initial (List.replicate 14 0xff)).mpr (by decide)

theorem not_readsHeaders_thirteen :
    (EthernetFrame.initial.parse (List.replicate 13 0xff)).1 = .noError ∧
      frameIn (List.replicate 13 0xff) =
        some ⟨EthernetFrame.initial.header, [List.replicate 13 0xff]⟩ ∧
      ¬ ReadsHeaders EthernetFrame.initial (List.replicate 13 0xff) := by
  refine ⟨by decide, by decide, ?_⟩
  intro h
  exact absurd (h.accepts_iff.mp (by decide)) (by decide)

end Headers

end TCPOverIPv4OverEthernetAdapter
end Sponge
