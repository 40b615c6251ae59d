import Mathlib.Data.Nat.Notation

/-! # Socket addresses, as far as the protocols look at them -/
namespace Sponge

/-- The IPv4 number of an address, for the addresses of that family, and its port. -/
structure Address where
  ipv4 : Option UInt32
  port : UInt16
  deriving DecidableEq

namespace Address

def ipv4Numeric (a : Address) : Except String UInt32 :=
  match a.ipv4 with
  | some ip => .ok ip
  | none => .error "ipv4_numeric called on non-IPV4 address"

def fromIPv4Numeric (ip : UInt32) : Address := ⟨some ip, 0⟩

theorem ipv4Numeric_eq {a : Address} {ip : UInt32} (h : a.ipv4 = some ip) :
    a.ipv4Numeric = .ok ip := by
  rw [ipv4Numeric, h]

end Address
end Sponge
