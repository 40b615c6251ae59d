import Mathlib.Data.List.Pairwise
import Sponge.LastMaximum
import Sponge.Router

/-!
# The longest matching prefix

The search keeps the last of the routes with the longest prefix among those that pass its test. The
test compares the masked destination with the whole `route_prefix`, so a route whose prefix has bits
below the mask matches nothing.
-/
namespace Sponge

namespace RouteInformation

/-- The first `prefix_length` bits of an address. -/
def firstBits (el : RouteInformation) (addr : UInt32) : ℕ :=
  addr.toNat / 2 ^ (32 - el.prefixLength.toNat)

/-- What the documentation calls a match. -/
def Matches (el : RouteInformation) (dst : UInt32) : Prop :=
  el.firstBits el.routePrefix = el.firstBits dst

/-- The prefix has no bits below its mask. -/
def Canonical (el : RouteInformation) : Prop :=
  el.prefixLength = 0 ∨ el.routePrefix.toNat % 2 ^ (32 - el.prefixLength.toNat) = 0

/-- The routes are for different sets of addresses. -/
def Distinct (a b : RouteInformation) : Prop :=
  ¬ (a.prefixLength = b.prefixLength ∧ a.firstBits a.routePrefix = b.firstBits b.routePrefix)

instance (el : RouteInformation) (dst : UInt32) : Decidable (el.Matches dst) :=
  inferInstanceAs (Decidable (_ = _))

instance (el : RouteInformation) : Decidable el.Canonical := inferInstanceAs (Decidable (_ ∨ _))

instance (a b : RouteInformation) : Decidable (Distinct a b) := inferInstanceAs (Decidable (¬ _))

instance : Std.Symm Distinct := ⟨fun _ _ h hsame => h ⟨hsame.1.symm, hsame.2.symm⟩⟩

section Mask
variable {el : RouteInformation} {dst : UInt32}

/-- Masking cuts the low bits off. -/
theorem and_high_mask (n : ℕ) {k : ℕ} (hn : n < 2 ^ 32) :
    n &&& ((2 ^ 32 - 1) <<< k % 2 ^ 32) = n / 2 ^ k * 2 ^ k := by
  apply Nat.eq_of_testBit_eq
  intro i
  rw [Nat.testBit_and, Nat.testBit_mod_two_pow, Nat.testBit_shiftLeft, Nat.testBit_two_pow_sub_one,
    Nat.testBit_mul_two_pow, Nat.testBit_div_two_pow]
  by_cases hk : k ≤ i
  · by_cases hi : i < 32
    · simp [hi, hk, show i - k < 32 by omega]
    · have hzero : n.testBit i = false := by
        apply Nat.testBit_eq_false_of_lt
        exact hn.trans_le (Nat.pow_le_pow_right (by decide) (Nat.le_of_not_lt hi))
      simp [hzero, hk]
  · simp [hk]

theorem toNat_mask (hlength : el.prefixLength ≤ 32) (hpos : el.prefixLength ≠ 0) :
    (dst &&& ((0xFFFFFFFF : UInt32) <<< (32 - el.prefixLength.toUInt32))).toNat =
      el.firstBits dst * 2 ^ (32 - el.prefixLength.toNat) := by
  have hle : el.prefixLength.toNat ≤ 32 := hlength
  have hne : el.prefixLength.toNat ≠ 0 := fun h => hpos (UInt8.toNat_inj.mp h)
  have hshift : (32 - el.prefixLength.toUInt32).toNat % 32 = 32 - el.prefixLength.toNat := by
    rw [UInt32.toNat_sub_of_le _ _ (by rw [UInt32.le_iff_toNat_le]; simpa using hle)]
    simp
    omega
  rw [UInt32.toNat_and, UInt32.toNat_shiftLeft, hshift]
  exact and_high_mask _ dst.toNat_lt

/-- The test of the search asks for more than a match. -/
theorem applies_iff (hlength : el.prefixLength ≤ 32) :
    el.Applies dst ↔ el.Matches dst ∧ el.Canonical := by
  rw [Applies, Canonical]
  by_cases hzero : el.prefixLength = 0
  · have hshort (addr : UInt32) : el.firstBits addr = 0 := by
      rw [firstBits, hzero]
      exact Nat.div_eq_of_lt addr.toNat_lt
    simp [hzero, Matches, hshort]
  · rw [← UInt32.toNat_inj, toNat_mask hlength hzero, Matches]
    simp only [hzero, false_or]
    have hpos : 0 < 2 ^ (32 - el.prefixLength.toNat) := Nat.two_pow_pos _
    constructor
    · intro hprefix
      rw [firstBits, ← hprefix, Nat.mul_div_cancel _ hpos]
      exact ⟨rfl, Nat.mul_mod_left _ _⟩
    · rintro ⟨hbits, hlow⟩
      rw [← hbits, firstBits]
      exact Nat.div_mul_cancel (Nat.dvd_of_mod_eq_zero hlow)

end Mask
end RouteInformation

/-- The variables of the search once it has settled on a route. -/
def RouteSearch.ofRoute : Option RouteInformation → RouteSearch
  | none => {}
  | some el => ⟨true, el.prefixLength, el.interfaceNum, el.nextHop⟩

namespace Router
open RouteInformation

/-- What `route_one_datagram` decides: to drop the datagram, or an interface and a next hop. -/
def decision (r : Router) (dgram : InternetDatagram) : Option (ℕ × Address) :=
  if dgram.header.ttl ≤ 1 then none
  else
    let found := r.search (aged dgram).header.dst
    if !found.isMatched then none
    else some (found.interfaceNum, found.nextHop.getD (.fromIPv4Numeric (aged dgram).header.dst))

/-- What follows from the decision. -/
def handOver (r : Router) (dgram : InternetDatagram) :
    Option (ℕ × Address) → Outcome Router Router
  | none => .ok r
  | some (n, hop) => do
    let interface ← leaving r (r.interface n)
    (interface.sendDatagram (aged dgram) hop).within (r.setInterface n)

theorem routeOneDatagram_eq (r : Router) (dgram : InternetDatagram) :
    r.routeOneDatagram dgram = r.handOver dgram (r.decision dgram) := by
  rw [routeOneDatagram, decision]
  split
  · rfl
  · simp only
    split <;> rfl

/-- The documented decision for a datagram that may still travel. -/
def Documented (table : List RouteInformation) (dst : UInt32) : Option (ℕ × Address) → Prop
  | none => ∀ el ∈ table, ¬ el.Matches dst
  | some (n, hop) => ∃ before el after, table = before ++ el :: after ∧ el.Matches dst ∧
      (∀ other ∈ before, other.Matches dst → other.prefixLength ≤ el.prefixLength) ∧
      (∀ other ∈ after, other.Matches dst → other.prefixLength < el.prefixLength) ∧
      n = el.interfaceNum ∧ hop = el.nextHop.getD (.fromIPv4Numeric dst)

section Search
variable {r : Router} {dst : UInt32} {dgram : InternetDatagram}

/-- The route the search settles on. -/
def chosen (r : Router) (dst : UInt32) : Option RouteInformation :=
  lastMax (·.Applies dst) (·.prefixLength.toNat) r.routingTable

theorem search_eq (r : Router) (dst : UInt32) : r.search dst = .ofRoute (r.chosen dst) := by
  rw [search, chosen]
  induction r.routingTable using List.reverseRecOn with
  | nil => rfl
  | append_singleton table el ih =>
    have hlonger : (∀ best, lastMax (·.Applies dst) (·.prefixLength.toNat) table = some best →
          best.prefixLength.toNat ≤ el.prefixLength.toNat) ↔
        (RouteSearch.ofRoute (lastMax (·.Applies dst) (·.prefixLength.toNat) table)).matchedLength ≤
          el.prefixLength := by
      cases lastMax (·.Applies dst) (·.prefixLength.toNat) table with
      | none => simp [RouteSearch.ofRoute]
      | some best => simp [RouteSearch.ofRoute, UInt8.le_iff_toNat_le]
    rw [List.foldl_append, List.foldl_cons, List.foldl_nil, ih, lastMax_snoc, RouteSearch.visit]
    simp only [hlonger]
    split <;> rfl

theorem decision_eq (h : 1 < dgram.header.ttl) : r.decision dgram =
    (r.chosen dgram.header.dst).map fun el =>
      (el.interfaceNum, el.nextHop.getD (.fromIPv4Numeric dgram.header.dst)) := by
  rw [decision, if_neg (UInt8.not_le.mpr h), search_eq]
  cases hchosen : r.chosen dgram.header.dst <;> simp [RouteSearch.ofRoute, hchosen]

/-- Where the test of the search agrees with a match, the decision is the documented one. -/
theorem documented_decision (hagree : ∀ el ∈ r.routingTable, el.Applies dgram.header.dst ↔
      el.Matches dgram.header.dst) (h : 1 < dgram.header.ttl) :
    Documented r.routingTable dgram.header.dst (r.decision dgram) := by
  rw [decision_eq h]
  cases hchosen : r.chosen dgram.header.dst with
  | none =>
    intro el hel
    rw [← hagree el hel]
    exact lastMax_eq_none_iff.mp hchosen el hel
  | some el =>
    obtain ⟨before, after, htable, happlies, hbefore, hafter⟩ := lastMax_split hchosen
    rw [htable] at hagree
    have hagree' : ∀ other ∈ before ++ el :: after, other.Matches dgram.header.dst →
        other.Applies dgram.header.dst := fun other hother => (hagree other hother).mpr
    refine ⟨before, el, after, htable, (hagree el (by simp)).mp happlies, ?_, ?_, rfl, rfl⟩
    · intro other hother hmatch
      exact hbefore other hother (hagree' other (by simp [hother]) hmatch)
    · intro other hother hmatch
      exact hafter other hother (hagree' other (by simp [hother]) hmatch)

end Search

/-- A table is searched as documented exactly if no prefix has bits below its mask. -/
theorem longest_prefix_iff (r : Router) (hlength : ∀ el ∈ r.routingTable, el.prefixLength ≤ 32) :
    (∀ dgram, r.routeOneDatagram dgram = r.handOver dgram (r.decision dgram)) ∧
    (((∀ el ∈ r.routingTable, ∀ dst, el.Applies dst ↔ el.Matches dst) ∧
        ∀ dgram : InternetDatagram, 1 < dgram.header.ttl →
          Documented r.routingTable dgram.header.dst (r.decision dgram)) ↔
      ∀ el ∈ r.routingTable, el.Canonical) := by
  refine ⟨r.routeOneDatagram_eq, ?_, ?_⟩
  · rintro ⟨hagree, -⟩ el hel
    -- the prefix itself is an address that matches
    have happlies := (hagree el hel el.routePrefix).mpr rfl
    exact ((applies_iff (hlength el hel)).mp happlies).2
  · intro hcanonical
    have hagree : ∀ el ∈ r.routingTable, ∀ dst, el.Applies dst ↔ el.Matches dst := by
      intro el hel dst
      rw [applies_iff (hlength el hel), and_iff_left (hcanonical el hel)]
    exact ⟨hagree, fun dgram h => documented_decision (fun el hel => hagree el hel _) h⟩

/-- The decision does not depend on the order of a table without two routes for the same
addresses. -/
theorem decision_perm {r r' : Router} (hperm : r.routingTable.Perm r'.routingTable)
    (hlength : ∀ el ∈ r.routingTable, el.prefixLength ≤ 32)
    (hdistinct : r.routingTable.Pairwise Distinct) (dgram : InternetDatagram) :
    r'.decision dgram = r.decision dgram ∧ (r'.interfaces = r.interfaces →
      (r'.routeOneDatagram dgram).within interfaces =
        (r.routeOneDatagram dgram).within interfaces) := by
  have hchosen (dst : UInt32) : r'.chosen dst = r.chosen dst := by
    refine lastMax_perm hperm fun a ha b hb happlies happlies' hkey => ?_
    by_contra hne
    have hsame : a.prefixLength = b.prefixLength := UInt8.toNat_inj.mp hkey
    refine hdistinct.forall ha hb hne ⟨hsame, ?_⟩
    have hmatch : a.firstBits a.routePrefix = a.firstBits dst :=
      ((applies_iff (hlength a ha)).mp happlies).1
    have hmatch' : b.firstBits b.routePrefix = b.firstBits dst :=
      ((applies_iff (hlength b hb)).mp happlies').1
    rw [hmatch, hmatch', firstBits, firstBits, hsame]
  have hdecision : r'.decision dgram = r.decision dgram := by
    rw [decision, decision, search_eq, search_eq, hchosen]
  refine ⟨hdecision, fun hinterfaces => ?_⟩
  rw [routeOneDatagram_eq, routeOneDatagram_eq, hdecision]
  cases r.decision dgram with
  | none => exact congrArg Except.ok hinterfaces
  | some d =>
    obtain ⟨n, hop⟩ := d
    have hset : interfaces ∘ r'.setInterface n = interfaces ∘ r.setInterface n := by
      funext y
      simp [setInterface, hinterfaces]
    simp only [handOver, interface, hinterfaces]
    cases r.interfaces[n]? with
    | none => simp [bind, Except.bind, hinterfaces]
    | some x =>
      simp only [leaving_ok, bind, Except.bind]
      rw [Outcome.within_within, Outcome.within_within, hset]

section Small

/-- Two networks, the second one inside the first. -/
def nested : List RouteInformation :=
  [⟨0x0A000000, 8, none, 0⟩, ⟨0x0A010000, 16, some ⟨some 9, 0⟩, 1⟩]

def toInner : InternetDatagram := { header := { ttl := 64, dst := 0x0A010203 } }

theorem longest_prefix_nested :
    Documented nested 0x0A010203 (decision { routingTable := nested } toInner) ∧
      decision { routingTable := nested } toInner = some (1, ⟨some 9, 0⟩) :=
  ⟨((longest_prefix_iff { routingTable := nested } (by decide)).2.mpr (by decide)).2 toInner
    (by decide), by decide +kernel⟩

/-- The route 128.30.76.255/16 matches 128.30.1.1, but the datagram is dropped. -/
theorem unmasked_prefix_dropped :
    let el : RouteInformation := ⟨0x801E4CFF, 16, none, 0⟩
    let dgram : InternetDatagram := { header := { ttl := 64, dst := 0x801E0101 } }
    el.Matches dgram.header.dst ∧ decision { routingTable := [el] } dgram = none ∧
      ¬ Documented [el] dgram.header.dst (decision { routingTable := [el] } dgram) := by
  intro el dgram
  have hmatch : el.Matches dgram.header.dst := by decide +kernel
  have hnone : decision { routingTable := [el] } dgram = none := by decide +kernel
  refine ⟨hmatch, hnone, ?_⟩
  rw [hnone]
  exact fun h => h el (List.mem_singleton_self el) hmatch

theorem decision_perm_nested :
    decision { routingTable := nested.reverse } toInner =
      decision { routingTable := nested } toInner :=
  (decision_perm (List.reverse_perm nested).symm (by decide) (by decide) toInner).1

end Small
end Router
end Sponge
