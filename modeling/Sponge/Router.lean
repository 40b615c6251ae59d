import Sponge.InterfaceCalls

/-!
# The router

Frames from anywhere arrive at the interfaces, and what `recvFrame` hands up is queued until the
next call of `route`. As `IPv4Datagram.parse` does not look at the header's own verdict, a datagram
may be queued that `serialize` refuses: `route` throws when it comes to forward one, and only then.
It leaves behind the queues and interfaces as it has found or made them by then.
-/
namespace Sponge

/-- An interface that queues the datagrams it receives. -/
structure AsyncNetworkInterface where
  interface : NetworkInterface
  datagramsOut : List InternetDatagram := []

namespace AsyncNetworkInterface

def recvFrame (s : AsyncNetworkInterface) (frame : EthernetFrame) :
    Outcome AsyncNetworkInterface AsyncNetworkInterface := do
  let (optionalDgram, interface) ←
    (s.interface.recvFrame frame).lift fun interface => { s with interface }
  return { interface, datagramsOut := s.datagramsOut ++ optionalDgram.toList }

def sendDatagram (s : AsyncNetworkInterface) (dgram : InternetDatagram) (nextHop : Address) :
    Outcome AsyncNetworkInterface AsyncNetworkInterface :=
  (s.interface.sendDatagram dgram nextHop).within fun interface => { s with interface }

def tick (s : AsyncNetworkInterface) (ms : ℕ) : AsyncNetworkInterface :=
  { s with interface := s.interface.tick ms }

section State
variable (s : AsyncNetworkInterface)

/-- What a frame adds to the queue: at most one datagram. -/
def handedUp (frame : EthernetFrame) : List InternetDatagram :=
  match s.interface.recvFrame frame with
  | .ok (optionalDgram, _) => optionalDgram.toList
  | .error _ => []

theorem state_recvFrame (frame : EthernetFrame) : (s.recvFrame frame).state =
    ⟨s.interface.step (.recvFrame frame), s.datagramsOut ++ s.handedUp frame⟩ := by
  rw [recvFrame, handedUp, NetworkInterface.step, NetworkInterface.call]
  rcases s.interface.recvFrame frame with ⟨message, t⟩ | ⟨optionalDgram, t⟩
  · simp [Except.map, bind, Except.bind]
  · rfl

end State
end AsyncNetworkInterface

structure RouteInformation where
  routePrefix : UInt32
  prefixLength : UInt8
  nextHop : Option Address
  interfaceNum : ℕ

structure Router where
  interfaces : List AsyncNetworkInterface := []
  routingTable : List RouteInformation := []

namespace RouteInformation

/-- The test of a route against a destination address. Without the first half, a prefix length of
zero would shift by the full width. -/
def Applies (el : RouteInformation) (dst : UInt32) : Prop :=
  el.prefixLength = 0 ∨
    dst &&& ((0xFFFFFFFF : UInt32) <<< (32 - el.prefixLength.toUInt32)) = el.routePrefix

instance (el : RouteInformation) (dst : UInt32) : Decidable (el.Applies dst) :=
  inferInstanceAs (Decidable (_ ∨ _))

end RouteInformation

/-- The variables of the search for a route. -/
structure RouteSearch where
  isMatched : Bool := false
  matchedLength : UInt8 := 0
  interfaceNum : ℕ := 0
  nextHop : Option Address := none

def RouteSearch.visit (dst : UInt32) (search : RouteSearch) (el : RouteInformation) : RouteSearch :=
  if el.Applies dst ∧ search.matchedLength ≤ el.prefixLength then
    ⟨true, el.prefixLength, el.interfaceNum, el.nextHop⟩
  else search

namespace Router

def addInterface (r : Router) (interface : AsyncNetworkInterface) : ℕ × Router :=
  (r.interfaces.length, { r with interfaces := r.interfaces ++ [interface] })

def addRoute (r : Router) (routePrefix : UInt32) (prefixLength : UInt8) (nextHop : Option Address)
    (interfaceNum : ℕ) : Router :=
  { r with routingTable := r.routingTable ++ [⟨routePrefix, prefixLength, nextHop, interfaceNum⟩] }

def interface (r : Router) (n : ℕ) : Except String AsyncNetworkInterface :=
  match r.interfaces[n]? with
  | some interface => .ok interface
  | none => .error "vector::_M_range_check"

def setInterface (r : Router) (n : ℕ) (interface : AsyncNetworkInterface) : Router :=
  { r with interfaces := r.interfaces.set n interface }

def search (r : Router) (dst : UInt32) : RouteSearch := r.routingTable.foldl (.visit dst) {}

/-- The datagram with one hop less to live. -/
def aged (dgram : InternetDatagram) : InternetDatagram :=
  { dgram with header := { dgram.header with ttl := dgram.header.ttl - 1 } }

@[simp] theorem aged_dst (dgram : InternetDatagram) :
    (aged dgram).header.dst = dgram.header.dst := rfl

/-- The datagram is aged in place; nothing is seen of that unless the call throws. -/
def routeOneDatagram (r : Router) (dgram : InternetDatagram) : Outcome Router Router :=
  if dgram.header.ttl ≤ 1 then .ok r else
    let found := r.search (aged dgram).header.dst
    if !found.isMatched then .ok r else do
      let nextHop := found.nextHop.getD (.fromIPv4Numeric (aged dgram).header.dst)
      let interface ← leaving r (r.interface found.interfaceNum)
      (interface.sendDatagram (aged dgram) nextHop).within (r.setInterface found.interfaceNum)

def queue (r : Router) (n : ℕ) : List InternetDatagram :=
  (r.interfaces[n]?.map (·.datagramsOut)).getD []

def pop (r : Router) (n : ℕ) : Router :=
  { r with
    interfaces := r.interfaces.modify n fun interface =>
      { interface with datagramsOut := interface.datagramsOut.tail } }

/-- The router with another datagram at the front of a queue. -/
def setFront (r : Router) (n : ℕ) (dgram : InternetDatagram) : Router :=
  { r with
    interfaces := r.interfaces.modify n fun interface =>
      { interface with datagramsOut := dgram :: interface.datagramsOut.tail } }

/-- The loop over the queue of one interface, for at most the given number of rounds. A datagram
that makes the call throw stays at the front of the queue, with one hop less to live. -/
def drain (n : ℕ) : ℕ → Router → Outcome Router Router
  | 0, r => .ok r
  | rounds + 1, r =>
    match r.queue n with
    | [] => .ok r
    | dgram :: _ => do
      let r ← (r.routeOneDatagram dgram).lift (·.setFront n (aged dgram))
      drain n rounds (r.pop n)

def route (r : Router) : Outcome Router Router :=
  (List.range r.interfaces.length).foldlM (fun r n => drain n (r.queue n).length r) r

/-- The calls on a router that stands on a network: frames arrive as one buffer. -/
inductive Op where
  | recvFrame (n : ℕ) (header : EthernetHeader) (bytes : Buffer)
  | tick (n : ℕ) (ms : ℕ)
  | route

def call (r : Router) : Op → Outcome Router Router
  | .recvFrame n header bytes => do
    let interface ← leaving r (r.interface n)
    (interface.recvFrame ⟨header, [bytes]⟩).within (r.setInterface n)
  | .tick n ms => do return r.setInterface n ((← leaving r (r.interface n)).tick ms)
  | .route => r.route

/-- The router after any call. -/
def step (r : Router) (op : Op) : Router := (r.call op).state

def machine : Machine Router Op := ⟨step, fun _ _ => True⟩

/-- The routes name interfaces that exist and have IPv4 addresses of their own, and next hops that
are IPv4 addresses. -/
structure Valid (r : Router) : Prop where
  prefixLength_le : ∀ el ∈ r.routingTable, el.prefixLength ≤ 32
  interfaceNum_lt : ∀ el ∈ r.routingTable, el.interfaceNum < r.interfaces.length
  ipAddress_ipv4 : ∀ el ∈ r.routingTable, ∀ x, r.interfaces[el.interfaceNum]? = some x →
    ∃ ip, x.interface.ipAddress.ipv4 = some ip
  nextHop_ipv4 : ∀ el ∈ r.routingTable, ∀ hop, el.nextHop = some hop → ∃ ip, hop.ipv4 = some ip

theorem Valid.addInterface {r : Router} (hr : r.Valid) (interface : AsyncNetworkInterface) :
    (r.addInterface interface).2.Valid := by
  refine ⟨hr.prefixLength_le, fun el hel => ?_, fun el hel x hx => ?_, hr.nextHop_ipv4⟩
  · have hlt := hr.interfaceNum_lt el hel
    simp only [Router.addInterface, List.length_append]
    omega
  · refine hr.ipAddress_ipv4 el hel x ?_
    rwa [Router.addInterface, List.getElem?_append_left (hr.interfaceNum_lt el hel)] at hx

theorem Valid.addRoute {r : Router} (hr : r.Valid) (routePrefix : UInt32) {prefixLength : UInt8}
    (hlength : prefixLength ≤ 32) {nextHop : Option Address}
    (hhop : ∀ hop, nextHop = some hop → ∃ ip, hop.ipv4 = some ip) (interfaceNum : ℕ)
    {x : AsyncNetworkInterface} (hx : r.interfaces[interfaceNum]? = some x) {own : UInt32}
    (hown : x.interface.ipAddress.ipv4 = some own) :
    (r.addRoute routePrefix prefixLength nextHop interfaceNum).Valid := by
  constructor
  · exact List.forall_mem_append.mpr ⟨hr.prefixLength_le, List.forall_mem_singleton.mpr hlength⟩
  · exact List.forall_mem_append.mpr ⟨hr.interfaceNum_lt,
      List.forall_mem_singleton.mpr (List.getElem?_eq_some_iff.mp hx).1⟩
  · refine List.forall_mem_append.mpr ⟨hr.ipAddress_ipv4,
      List.forall_mem_singleton.mpr fun y hy => ⟨own, ?_⟩⟩
    cases hx.symm.trans hy
    exact hown
  · exact List.forall_mem_append.mpr ⟨hr.nextHop_ipv4, List.forall_mem_singleton.mpr hhop⟩

/-- The router would send the datagram on. -/
def Forwards (r : Router) (dgram : InternetDatagram) : Prop :=
  1 < dgram.header.ttl ∧ (r.search dgram.header.dst).isMatched = true

/-- The call hands the datagram up to the queue of an interface. -/
def HandsUp (r : Router) (op : Op) (dgram : InternetDatagram) : Prop :=
  match op with
  | .recvFrame n header bytes => ∃ x t, r.interfaces[n]? = some x ∧
      x.interface.recvFrame ⟨header, [bytes]⟩ = .ok (some dgram, t)
  | _ => False

/-- The datagram would be sent on, but has another version or an impossible header length. -/
def Poisonous (r : Router) (dgram : InternetDatagram) : Prop :=
  r.Forwards dgram ∧ ¬ (dgram.header.ver = 4 ∧ 5 ≤ dgram.header.hlen.toNat)

theorem HandsUp.size_eq {r : Router} {op : Op} {dgram : InternetDatagram}
    (h : r.HandsUp op dgram) : dgram.payload.size = dgram.header.payloadLength.toNat := by
  cases op with
  | recvFrame n header bytes =>
    obtain ⟨x, t, -, hrecv⟩ := h
    exact (x.interface.recvFrame_some hrecv).2.size_eq
  | tick n ms => cases h
  | route => cases h

section Queues
variable {r r' : Router} {n : ℕ} {x y : AsyncNetworkInterface}

theorem queue_eq (hx : r.interfaces[n]? = some x) : r.queue n = x.datagramsOut := by
  rw [queue, hx]
  rfl

theorem queue_setInterface (hx : r.interfaces[n]? = some x) :
    (r.setInterface n y).queue = Function.update r.queue n y.datagramsOut := by
  obtain ⟨hn, -⟩ := List.getElem?_eq_some_iff.mp hx
  funext m
  by_cases hm : m = n
  · subst hm
    rw [Function.update_self]
    exact queue_eq (List.getElem?_set_self hn)
  · rw [Function.update_of_ne hm, queue, setInterface, List.getElem?_set_ne (Ne.symm hm)]
    rfl

theorem queue_pop : (r.pop n).queue = Function.update r.queue n (r.queue n).tail := by
  funext m
  by_cases hm : m = n
  · subst hm
    rw [Function.update_self, queue, queue, pop, List.getElem?_modify_eq]
    cases r.interfaces[m]? <;> rfl
  · rw [Function.update_of_ne hm, queue, pop, List.getElem?_modify_ne _ _ (Ne.symm hm)]
    rfl

theorem interface_eq (hx : r.interfaces[n]? = some x) : r.interface n = .ok x := by
  rw [interface, hx]

/-- The own addresses of the interfaces. -/
def ownAddresses (r : Router) : List Address := r.interfaces.map (·.interface.ipAddress)

/-- The routers have the same routes and the same own addresses. -/
structure Alike (r r' : Router) : Prop where
  routingTable_eq : r'.routingTable = r.routingTable
  ownAddresses_eq : r'.ownAddresses = r.ownAddresses

theorem Alike.refl (r : Router) : Alike r r := ⟨rfl, rfl⟩

theorem Alike.trans {r'' : Router} (h : Alike r r') (h' : Alike r' r'') : Alike r r'' :=
  ⟨h'.routingTable_eq.trans h.routingTable_eq, h'.ownAddresses_eq.trans h.ownAddresses_eq⟩

theorem Alike.length_eq (h : Alike r r') : r'.interfaces.length = r.interfaces.length := by
  have hlength := congrArg List.length h.ownAddresses_eq
  rwa [ownAddresses, ownAddresses, List.length_map, List.length_map] at hlength

theorem Alike.getElem?_eq_some (h : Alike r r') (hy : r'.interfaces[n]? = some y) :
    ∃ x, r.interfaces[n]? = some x ∧ y.interface.ipAddress = x.interface.ipAddress := by
  have hsame := congrArg (·[n]?) h.ownAddresses_eq
  simp only [ownAddresses, List.getElem?_map, hy, Option.map_some] at hsame
  obtain ⟨x, hx, hxy⟩ := Option.map_eq_some_iff.mp hsame.symm
  exact ⟨x, hx, hxy.symm⟩

theorem Alike.valid (h : Alike r r') (hr : r.Valid) : r'.Valid := by
  constructor
  · rw [h.routingTable_eq]
    exact hr.prefixLength_le
  · rw [h.routingTable_eq, h.length_eq]
    exact hr.interfaceNum_lt
  · rw [h.routingTable_eq]
    intro el hel y hy
    obtain ⟨x, hx, hsame⟩ := h.getElem?_eq_some hy
    rw [hsame]
    exact hr.ipAddress_ipv4 el hel x hx
  · rw [h.routingTable_eq]
    exact hr.nextHop_ipv4

theorem Alike.poisonous_iff (h : Alike r r') (dgram : InternetDatagram) :
    r'.Poisonous dgram ↔ r.Poisonous dgram := by
  rw [Poisonous, Forwards, search, h.routingTable_eq]
  rfl

theorem alike_setInterface (hx : r.interfaces[n]? = some x)
    (hy : y.interface.ipAddress = x.interface.ipAddress) : Alike r (r.setInterface n y) := by
  refine ⟨rfl, ?_⟩
  rw [ownAddresses, ownAddresses, setInterface, List.map_set, hy]
  apply List.ext_getElem?
  intro m
  by_cases hm : n = m
  · subst hm
    rw [List.getElem?_set_self (by simpa using (List.getElem?_eq_some_iff.mp hx).1),
      List.getElem?_map, hx, Option.map_some]
  · rw [List.getElem?_set_ne hm]

theorem alike_pop : Alike r (r.pop n) := by
  refine ⟨rfl, ?_⟩
  rw [ownAddresses, ownAddresses, pop]
  apply List.ext_getElem?
  intro m
  rw [List.getElem?_map, List.getElem?_map, List.getElem?_modify]
  split <;> cases r.interfaces[m]? <;> rfl

end Queues

/-- A route that was found stands in the table. -/
theorem search_matched {r : Router} {dst : UInt32} (h : (r.search dst).isMatched = true) :
    ∃ el ∈ r.routingTable, el.Applies dst ∧ (r.search dst).interfaceNum = el.interfaceNum ∧
      (r.search dst).nextHop = el.nextHop := by
  revert h
  refine List.foldlRecOn (motive := fun (found : RouteSearch) => found.isMatched = true →
    ∃ el ∈ r.routingTable, el.Applies dst ∧ found.interfaceNum = el.interfaceNum ∧
      found.nextHop = el.nextHop)
    r.routingTable (RouteSearch.visit dst) (nomatch ·) ?_
  intro found hfound el hel
  rw [RouteSearch.visit]
  split
  · next happlies => exact fun _ => ⟨el, hel, happlies.1, rfl, rfl⟩
  · exact hfound

section Route
variable {r : Router}

/-- The interface and the next hop of a datagram that is sent on are there, and the interface can
ask for the next hop. -/
theorem Valid.search_usable (hr : r.Valid) {dst : UInt32} (h : (r.search dst).isMatched = true) :
    (∃ x own, r.interfaces[(r.search dst).interfaceNum]? = some x ∧
      x.interface.ipAddress.ipv4 = some own) ∧
      ∃ ip, ((r.search dst).nextHop.getD (.fromIPv4Numeric dst)).ipv4 = some ip := by
  obtain ⟨el, hel, -, hnum, hhop⟩ := search_matched h
  rw [hnum, hhop]
  constructor
  · have hx := List.getElem?_eq_getElem (hr.interfaceNum_lt el hel)
    obtain ⟨own, hown⟩ := hr.ipAddress_ipv4 el hel _ hx
    exact ⟨_, own, hx, hown⟩
  · cases hnext : el.nextHop with
    | none => exact ⟨dst, rfl⟩
    | some hop => exact hr.nextHop_ipv4 el hel hop hnext

variable {dgram : InternetDatagram}

theorem routeOneDatagram_of_not_forwards (h : ¬ r.Forwards dgram) :
    r.routeOneDatagram dgram = .ok r := by
  rw [routeOneDatagram]
  split
  · rfl
  · next httl =>
    have hmissed : (r.search dgram.header.dst).isMatched = false := by
      rw [← Bool.not_eq_true]
      exact fun hmatched => h ⟨UInt8.not_le.mp httl, hmatched⟩
    simp only [aged_dst, hmissed]
    rfl

theorem routeOneDatagram_of_forwards (h : r.Forwards dgram) {x : AsyncNetworkInterface}
    (hx : r.interfaces[(r.search dgram.header.dst).interfaceNum]? = some x) :
    r.routeOneDatagram dgram = (x.sendDatagram (aged dgram)
      ((r.search dgram.header.dst).nextHop.getD (.fromIPv4Numeric dgram.header.dst))).within
        (r.setInterface (r.search dgram.header.dst).interfaceNum) := by
  rw [routeOneDatagram, if_neg (UInt8.not_le.mpr h.1)]
  simp only [aged_dst, h.2, interface_eq hx, leaving_ok, bind, Except.bind, Bool.not_true,
    Bool.false_eq_true, if_false]

section Valid
variable (hr : r.Valid)
include hr

theorem routeOneDatagram_throws (h : r.Poisonous dgram) :
    ∃ e, r.routeOneDatagram dgram = .error e := by
  obtain ⟨hforwards, hbad⟩ := h
  obtain ⟨⟨x, own, hx, -⟩, -⟩ := hr.search_usable hforwards.2
  rw [routeOneDatagram_of_forwards hforwards hx]
  cases hser : (aged dgram).serialize with
  | error message =>
    obtain ⟨e, hsend⟩ := x.interface.sendDatagram_of_throws hser
    rw [AsyncNetworkInterface.sendDatagram, hsend]
    exact ⟨_, rfl⟩
  | ok bytes => exact absurd ((IPv4Datagram.serialize_isOk _).mp ⟨bytes, hser⟩).2 hbad

theorem routeOneDatagram_ok (hsize : dgram.payload.size = dgram.header.payloadLength.toNat)
    (h : ¬ r.Poisonous dgram) :
    ∃ r', r.routeOneDatagram dgram = .ok r' ∧ Alike r r' ∧ r'.queue = r.queue := by
  by_cases hforwards : r.Forwards dgram
  · have hgood : dgram.header.ver = 4 ∧ 5 ≤ dgram.header.hlen.toNat :=
      by_contra fun hbad => h ⟨hforwards, hbad⟩
    obtain ⟨bytes, hser⟩ := (IPv4Datagram.serialize_isOk (aged dgram)).mpr ⟨hsize, hgood⟩
    obtain ⟨⟨x, own, hx, hown⟩, ip, hip⟩ := hr.search_usable hforwards.2
    obtain ⟨t, hsend⟩ := x.interface.sendDatagram_of_serializes hown hip hser
    rw [routeOneDatagram_of_forwards hforwards hx, AsyncNetworkInterface.sendDatagram, hsend]
    refine ⟨_, rfl, alike_setInterface hx (NetworkInterface.ipAddress_of_sendDatagram hsend), ?_⟩
    rw [queue_setInterface hx, ← queue_eq hx, Function.update_eq_self]
  · exact ⟨r, routeOneDatagram_of_not_forwards hforwards, .refl r, rfl⟩

end Valid

/-- Every queued datagram has the payload its header asks for. -/
def Sized (r : Router) : Prop :=
  ∀ n, ∀ dgram ∈ r.queue n, dgram.payload.size = dgram.header.payloadLength.toNat

/-- Routing the queues in `S` either throws, if there is a poisonous datagram in one of them, or
empties them all. -/
inductive Routes (r : Router) (S : Set ℕ) : Outcome Router Router → Prop
  | throws {n : ℕ} {dgram : InternetDatagram} (e : String × Router) (hn : n ∈ S)
      (hmem : dgram ∈ r.queue n) (hpoison : r.Poisonous dgram) : Routes r S (.error e)
  | returns {r' : Router} (halike : Alike r r')
      (hclean : ∀ n ∈ S, ∀ dgram ∈ r.queue n, ¬ r.Poisonous dgram)
      (hemptied : ∀ n ∈ S, r'.queue n = []) (hkept : ∀ n ∉ S, r'.queue n = r.queue n) :
      Routes r S (.ok r')

section Popped
variable {r₁ : Router} {n : ℕ} {rest : List InternetDatagram} (hqueue : r.queue n = dgram :: rest)
  (hpopped : r₁.queue = Function.update r.queue n rest)
include hqueue hpopped

theorem mem_queue_of_popped {m : ℕ} {d : InternetDatagram} (hd : d ∈ r₁.queue m) :
    d ∈ r.queue m := by
  rw [hpopped] at hd
  by_cases hm : m = n
  · subst hm
    rw [Function.update_self] at hd
    rw [hqueue]
    exact List.mem_cons_of_mem _ hd
  · rwa [Function.update_of_ne hm] at hd

/-- A harmless first datagram changes nothing about how the rest of the queue is routed. -/
theorem Routes.of_popped {result : Outcome Router Router} (halike : Alike r r₁)
    (hharmless : ¬ r.Poisonous dgram) (h : Routes r₁ {n} result) : Routes r {n} result := by
  cases h with
  | throws e hm hd hpoison =>
    exact .throws e hm (mem_queue_of_popped hqueue hpopped hd)
      ((halike.poisonous_iff _).mp hpoison)
  | returns halike' hclean hemptied hkept =>
    refine .returns (halike.trans halike') ?_ hemptied ?_
    · rintro m rfl d hd
      rw [hqueue] at hd
      rcases List.mem_cons.mp hd with rfl | hd
      · exact hharmless
      · rw [← halike.poisonous_iff]
        refine hclean m rfl d ?_
        rwa [hpopped, Function.update_self]
    · intro m hm
      rw [hkept m hm, hpopped]
      exact Function.update_of_ne hm _ _

end Popped

theorem routes_drain (n rounds : ℕ) (hr : r.Valid) (hsized : r.Sized)
    (hrounds : (r.queue n).length = rounds) : Routes r {n} (drain n rounds r) := by
  induction rounds generalizing r with
  | zero =>
    have hnil := List.length_eq_zero_iff.mp hrounds
    refine .returns (.refl r) ?_ ?_ fun _ _ => rfl
    · rintro m rfl dgram hmem
      rw [hnil] at hmem
      cases hmem
    · rintro m rfl
      exact hnil
  | succ rounds ih =>
    obtain ⟨dgram, rest, hqueue⟩ := List.exists_cons_of_length_eq_add_one hrounds
    have hmem : dgram ∈ r.queue n := by
      rw [hqueue]
      exact List.mem_cons_self
    simp only [drain, hqueue]
    by_cases hpoison : r.Poisonous dgram
    · obtain ⟨e, hthrows⟩ := routeOneDatagram_throws hr hpoison
      rw [hthrows]
      exact .throws _ rfl hmem hpoison
    · obtain ⟨r₁, hone, hone_alike, hone_queue⟩ :=
        routeOneDatagram_ok hr (hsized n dgram hmem) hpoison
      rw [hone]
      have halike : Alike r (r₁.pop n) := hone_alike.trans alike_pop
      have hpopped : (r₁.pop n).queue = Function.update r.queue n rest := by
        rw [queue_pop, hone_queue, hqueue, List.tail_cons]
      refine .of_popped hqueue hpopped halike hpoison (ih (halike.valid hr) ?_ ?_)
      · intro m d hd
        exact hsized m d (mem_queue_of_popped hqueue hpopped hd)
      · rw [hqueue] at hrounds
        rw [hpopped, Function.update_self]
        exact Nat.succ.inj hrounds

theorem Routes.bind {S T : Set ℕ} {result : Outcome Router Router}
    {f : Router → Outcome Router Router} (h : Routes r S result) (hr : r.Valid) (hsized : r.Sized)
    (hf : ∀ r', r'.Valid → r'.Sized → Routes r' T (f r')) : Routes r (S ∪ T) (result >>= f) := by
  cases h with
  | throws e hn hmem hpoison => exact .throws e (Or.inl hn) hmem hpoison
  | @returns r' halike hclean hemptied hkept =>
    have hsub : ∀ m, ∀ d ∈ r'.queue m, m ∉ S ∧ d ∈ r.queue m := by
      intro m d hd
      have hm : m ∉ S := by
        intro hm
        rw [hemptied m hm] at hd
        cases hd
      rw [hkept m hm] at hd
      exact ⟨hm, hd⟩
    have hrest := hf r' (halike.valid hr) fun m d hd => hsized m d (hsub m d hd).2
    change Routes r (S ∪ T) (f r')
    generalize f r' = result at hrest ⊢
    cases hrest with
    | throws e hn hmem hpoison =>
      exact .throws e (Or.inr hn) (hsub _ _ hmem).2 ((halike.poisonous_iff _).mp hpoison)
    | returns halike' hclean' hemptied' hkept' =>
      refine .returns (halike.trans halike') ?_ ?_ ?_
      · intro m hm d hd
        by_cases hS : m ∈ S
        · exact hclean m hS d hd
        · rw [← halike.poisonous_iff]
          exact hclean' m (hm.resolve_left hS) d (by rwa [hkept m hS])
      · intro m hm
        by_cases hT : m ∈ T
        · exact hemptied' m hT
        · rw [hkept' m hT]
          exact hemptied m (hm.resolve_right hT)
      · intro m hm
        rw [hkept' m fun hT => hm (Or.inr hT), hkept m fun hS => hm (Or.inl hS)]

theorem routes_range (hr : r.Valid) (hsized : r.Sized) (k : ℕ) :
    Routes r {n | n < k}
      ((List.range k).foldlM (fun r n => drain n (r.queue n).length r) r) := by
  induction k with
  | zero => exact .returns (.refl r) (fun _ => (nomatch ·)) (fun _ => (nomatch ·)) fun _ _ => rfl
  | succ k ih =>
    have hset : {n | n < k + 1} = {n | n < k} ∪ {k} := by
      ext n
      exact Nat.lt_succ_iff_lt_or_eq
    rw [List.range_succ, List.foldlM_append, hset]
    refine ih.bind hr hsized fun r' hr' hsized' => ?_
    simp only [List.foldlM_cons, List.foldlM_nil, bind_pure]
    exact routes_drain k _ hr' hsized' rfl

theorem queue_eq_nil {n : ℕ} (hn : r.interfaces.length ≤ n) : r.queue n = [] := by
  rw [queue, List.getElem?_eq_none hn]
  rfl

/-- `route` throws exactly when a poisonous datagram waits, and otherwise empties all queues. -/
theorem routes_route (hr : r.Valid) (hsized : r.Sized) : Routes r Set.univ r.route := by
  have h := routes_range hr hsized r.interfaces.length
  change Routes r {n | n < r.interfaces.length} r.route at h
  generalize r.route = result at h ⊢
  cases h with
  | throws e hn hmem hpoison => exact .throws e trivial hmem hpoison
  | returns halike hclean hemptied hkept =>
    refine .returns halike (fun n _ d hd => ?_) (fun n _ => ?_) fun n hn => absurd trivial hn
    · by_cases hn : n < r.interfaces.length
      · exact hclean n hn d hd
      · rw [queue_eq_nil (Nat.le_of_not_lt hn)] at hd
        cases hd
    · by_cases hn : n < r.interfaces.length
      · exact hemptied n hn
      · rw [hkept n hn, queue_eq_nil (Nat.le_of_not_lt hn)]

end Route

/-- A poisonous datagram waits in a queue. -/
def Poisoned (r : Router) : Prop := ∃ n, ∃ dgram ∈ r.queue n, r.Poisonous dgram

/-- The call hands a poisonous datagram up. -/
def Poisons (r : Router) (op : Op) : Prop := ∃ dgram, r.HandsUp op dgram ∧ r.Poisonous dgram

section Steps
variable {r : Router}

/-- A call of `route` that returns found no poisonous datagram and has emptied all queues. -/
theorem route_eq_ok {r' : Router} (hr : r.Valid) (hsized : r.Sized) (hroute : r.route = .ok r') :
    Alike r r' ∧ ¬ r.Poisoned ∧ ∀ n, r'.queue n = [] := by
  have h := routes_route hr hsized
  rw [hroute] at h
  cases h with
  | returns halike hclean hemptied hkept =>
    refine ⟨halike, ?_, fun n => hemptied n trivial⟩
    rintro ⟨n, dgram, hmem, hpoison⟩
    exact hclean n trivial dgram hmem hpoison

theorem route_isOk_iff (hr : r.Valid) (hsized : r.Sized) :
    (∃ r', r.route = .ok r') ↔ ¬ r.Poisoned := by
  constructor
  · rintro ⟨r', hroute⟩
    exact (route_eq_ok hr hsized hroute).2.1
  · intro hclean
    have h := routes_route hr hsized
    generalize r.route = result at h ⊢
    cases h with
    | throws e _ hmem hpoison => exact absurd ⟨_, _, hmem, hpoison⟩ hclean
    | @returns r' => exact ⟨r', rfl⟩

theorem step_recvFrame (r : Router) (n : ℕ) (header : EthernetHeader) (bytes : Buffer) :
    Alike r (r.step (.recvFrame n header bytes)) ∧
      ∃ handed : List InternetDatagram,
        (r.step (.recvFrame n header bytes)).queue =
          Function.update r.queue n (r.queue n ++ handed) ∧
        ∀ dgram, dgram ∈ handed ↔ r.HandsUp (.recvFrame n header bytes) dgram := by
  cases hx : r.interfaces[n]? with
  | none =>
    have hstep : r.step (.recvFrame n header bytes) = r := by
      simp [step, call, interface, hx, bind, Except.bind]
    rw [hstep]
    refine ⟨.refl r, [], by rw [List.append_nil, Function.update_eq_self], fun dgram => ?_⟩
    simp [HandsUp, hx]
  | some x =>
    have hstep : r.step (.recvFrame n header bytes) =
        r.setInterface n (x.recvFrame ⟨header, [bytes]⟩).state := by
      simp [step, call, interface_eq hx, bind, Except.bind]
    rw [hstep, x.state_recvFrame]
    refine ⟨alike_setInterface hx (x.interface.step_addresses _).1, x.handedUp ⟨header, [bytes]⟩,
      ?_, fun dgram => ?_⟩
    · rw [queue_setInterface hx, queue_eq hx]
    · rw [AsyncNetworkInterface.handedUp]
      rcases hrecv : x.interface.recvFrame ⟨header, [bytes]⟩ with e | ⟨res, t⟩ <;>
        simp [HandsUp, hx, hrecv]

theorem step_tick (r : Router) (n ms : ℕ) :
    Alike r (r.step (.tick n ms)) ∧ (r.step (.tick n ms)).queue = r.queue := by
  cases hx : r.interfaces[n]? with
  | none =>
    have hstep : r.step (.tick n ms) = r := by
      simp [step, call, interface, hx, bind, Except.bind]
    rw [hstep]
    exact ⟨.refl r, rfl⟩
  | some x =>
    have hstep : r.step (.tick n ms) = r.setInterface n (x.tick ms) := by
      simp [step, call, interface_eq hx, bind, Except.bind, pure, Except.pure]
    rw [hstep]
    refine ⟨alike_setInterface hx rfl, ?_⟩
    rw [queue_setInterface hx, AsyncNetworkInterface.tick, ← queue_eq hx, Function.update_eq_self]

/-- A call that does not throw out of `route`. -/
def Returns (r : Router) (op : Op) : Prop := op = .route → ∃ r', r.route = .ok r'

theorem step_route (hr : r.Valid) (hsized : r.Sized) (h : r.Returns .route) :
    Alike r (r.step .route) ∧ ¬ r.Poisoned ∧ ∀ n, (r.step .route).queue n = [] := by
  obtain ⟨r', hroute⟩ := h rfl
  have hstep : r.step .route = r' := by
    rw [step, call, hroute, Outcome.state_ok]
  rw [hstep]
  exact route_eq_ok hr hsized hroute

section Step
variable (hr : r.Valid) (hsized : r.Sized) {op : Op} (hreturns : r.Returns op)
include hr hsized hreturns

theorem alike_step : Alike r (r.step op) := by
  cases op with
  | recvFrame n header bytes => exact (r.step_recvFrame n header bytes).1
  | tick n ms => exact (r.step_tick n ms).1
  | route => exact (step_route hr hsized hreturns).1

/-- A queued datagram was queued before or has just been handed up. -/
theorem mem_queue_step {n : ℕ} {dgram : InternetDatagram} (hmem : dgram ∈ (r.step op).queue n) :
    dgram ∈ r.queue n ∨ r.HandsUp op dgram := by
  cases op with
  | recvFrame m header bytes =>
    obtain ⟨-, handed, hqueue, hhanded⟩ := r.step_recvFrame m header bytes
    rw [hqueue] at hmem
    by_cases hm : n = m
    · subst hm
      rw [Function.update_self] at hmem
      exact (List.mem_append.mp hmem).imp_right (hhanded dgram).mp
    · rw [Function.update_of_ne hm] at hmem
      exact Or.inl hmem
  | tick m ms =>
    rw [(r.step_tick m ms).2] at hmem
    exact Or.inl hmem
  | route =>
    rw [(step_route hr hsized hreturns).2.2 n] at hmem
    cases hmem

theorem sized_step : (r.step op).Sized := by
  intro n dgram hmem
  rcases mem_queue_step hr hsized hreturns hmem with hmem | hhanded
  · exact hsized n dgram hmem
  · exact hhanded.size_eq

theorem poisoned_step_iff : (r.step op).Poisoned ↔ r.Poisoned ∨ r.Poisons op := by
  have halike := alike_step hr hsized hreturns
  constructor
  · rintro ⟨n, dgram, hmem, hpoison⟩
    rw [halike.poisonous_iff] at hpoison
    exact (mem_queue_step hr hsized hreturns hmem).imp (⟨n, dgram, ·, hpoison⟩)
      (⟨dgram, ·, hpoison⟩)
  · cases op with
    | recvFrame m header bytes =>
      obtain ⟨-, handed, hqueue, hhanded⟩ := r.step_recvFrame m header bytes
      rintro (⟨n, dgram, hmem, hpoison⟩ | ⟨dgram, hhandsUp, hpoison⟩)
      · refine ⟨n, dgram, ?_, (halike.poisonous_iff _).mpr hpoison⟩
        rw [hqueue]
        by_cases hm : n = m
        · subst hm
          rw [Function.update_self]
          exact List.mem_append_left _ hmem
        · rwa [Function.update_of_ne hm]
      · refine ⟨m, dgram, ?_, (halike.poisonous_iff _).mpr hpoison⟩
        rw [hqueue, Function.update_self]
        exact List.mem_append_right _ ((hhanded dgram).mpr hhandsUp)
    | tick m ms =>
      rintro (⟨n, dgram, hmem, hpoison⟩ | ⟨dgram, hhandsUp, -⟩)
      · refine ⟨n, dgram, ?_, (halike.poisonous_iff _).mpr hpoison⟩
        rwa [(r.step_tick m ms).2]
      · cases hhandsUp
    | route =>
      rintro (hpoisoned | ⟨dgram, hhandsUp, -⟩)
      · exact absurd hpoisoned (step_route hr hsized hreturns).2.1
      · cases hhandsUp

end Step
end Steps

section Runs
variable {r : Router} (hr : r.Valid) (hempty : ∀ n, r.queue n = [])
include hr hempty

/-- As long as no call of `route` has thrown, the router is poisoned if a poisonous datagram has
ever been handed up. -/
theorem run_spec {past : List Op} (hpast : (machine.restrict Returns).Admits r past) :
    Alike r (machine.run r past) ∧ (machine.run r past).Sized ∧
      ((machine.run r past).Poisoned ↔ machine.Occurs Poisons r past) := by
  refine (machine.restrict Returns).run_induction (P := fun past => Alike r (machine.run r past) ∧
    (machine.run r past).Sized ∧ ((machine.run r past).Poisoned ↔ machine.Occurs Poisons r past))
    ?_ ?_ hpast
  · refine ⟨.refl r, ?_, ?_⟩
    · intro n dgram hmem
      rw [machine.run_nil, hempty n] at hmem
      cases hmem
    · constructor
      · rintro ⟨n, dgram, hmem, -⟩
        rw [machine.run_nil, hempty n] at hmem
        cases hmem
      · exact (nomatch ·)
  · rintro past op _ ⟨-, hreturns⟩ ⟨halike, hsized, hpoisoned⟩
    have hvalid := halike.valid hr
    rw [machine.run_snoc, machine.occurs_snoc, ← hpoisoned]
    exact ⟨halike.trans (alike_step hvalid hsized hreturns), sized_step hvalid hsized hreturns,
      poisoned_step_iff hvalid hsized hreturns⟩

/-- Only the first exception counts, and before it the router is as `run_spec` says. -/
theorem admits_returns_iff (ops : List Op) : (machine.restrict Returns).Admits r ops ↔
    ∀ past op later, ops = past ++ op :: later → op = .route → ¬ machine.Occurs Poisons r past := by
  induction ops using List.reverseRecOn with
  | nil => simp [Machine.Admits]
  | append_singleton past op ih =>
    rw [Machine.admits_snoc, Machine.forall_split_snoc
      (P := fun past op => op = .route → ¬ machine.Occurs Poisons r past), ← ih]
    refine and_congr_right fun hpast => ?_
    obtain ⟨halike, hsized, hpoisoned⟩ := run_spec hr hempty hpast
    change True ∧ (op = .route → _) ↔ _
    rw [true_and, ← hpoisoned]
    exact imp_congr_right fun _ => route_isOk_iff (halike.valid hr) hsized

/-- No call of `route` throws if and only if none comes after a frame has brought in a datagram
that would be sent on and has another version or an impossible header length; these are just the
datagrams handed up that `serialize` refuses. -/
theorem route_never_throws_iff (ops : List Op) :
    ((∀ past later, ops = past ++ .route :: later → ∃ r', (machine.run r past).route = .ok r') ↔
      ∀ past later, ops = past ++ .route :: later → ¬ machine.Occurs Poisons r past) ∧
    ∀ past op later dgram, ops = past ++ op :: later → (machine.run r past).HandsUp op dgram →
      ((∃ bytes, dgram.serialize = .ok bytes) ↔
        dgram.header.ver = 4 ∧ 5 ≤ dgram.header.hlen.toNat) := by
  constructor
  · have hreturns := admits_returns_iff hr hempty ops
    rw [Machine.admits_iff] at hreturns
    constructor
    · intro h past later hsplit
      refine hreturns.mp (fun past op later hsplit => ⟨trivial, ?_⟩) past .route later hsplit rfl
      rintro rfl
      exact h past later hsplit
    · intro h past later hsplit
      refine (hreturns.mpr ?_ past .route later hsplit).2 rfl
      rintro past op later hsplit rfl
      exact h past later hsplit
  · intro past op later dgram _ hhandsUp
    rw [IPv4Datagram.serialize_isOk, and_iff_right hhandsUp.size_eq]

end Runs

/-- A router with one interface, to which everything is sent on. -/
def gateway : Router where
  interfaces := [{ interface := .new #v[2, 0, 0, 0, 0, 1] (.fromIPv4Numeric 1) }]
  routingTable := [⟨0, 0, some ⟨some 9, 0⟩, 0⟩]

theorem valid_gateway : gateway.Valid := by
  have hempty : ({} : Router).Valid := by constructor <;> exact List.forall_mem_nil _
  refine (hempty.addInterface
    { interface := .new #v[2, 0, 0, 0, 0, 1] (.fromIPv4Numeric 1) }).addRoute 0
      (show (0 : UInt8) ≤ 32 by decide) ?_ 0 rfl rfl
  intro hop hhop
  cases hhop
  exact ⟨9, rfl⟩

theorem queue_gateway (n : ℕ) : gateway.queue n = [] := by
  cases n <;> rfl

theorem exists_error {result : Outcome Router Router} (h : result.toOption.isNone = true) :
    ∃ e, result = .error e := by
  cases result with
  | error e => exact ⟨e, rfl⟩
  | ok r' => cases h

/-- A frame for the gateway that holds twenty bytes, the first of them as given. -/
def arriving (first : Byte) : Op :=
  .recvFrame 0 ⟨#v[2, 0, 0, 0, 0, 1], #v[2, 0, 0, 0, 0, 9], EthernetHeader.typeIPv4⟩
    ([first, 0, 0, 20, 0, 0, 0, 0, 64, 6] ++ List.replicate 10 0)

theorem route_throws_versionSix :
    gateway.Valid ∧ (∀ n, gateway.queue n = []) ∧
      ∃ e, (machine.run gateway [arriving 0x65]).route = .error e :=
  ⟨valid_gateway, queue_gateway, exists_error (by decide +kernel)⟩

theorem route_never_throws_versionFour :
    ∃ r', (machine.run gateway [arriving 0x45]).route = .ok r' := by
  refine (route_never_throws_iff valid_gateway queue_gateway [arriving 0x45, .route]).1.mpr ?_
    [arriving 0x45] [] rfl
  intro past later hsplit
  have hfour : ¬ machine.Occurs Poisons gateway [arriving 0x45] := by
    rintro (⟨dgram, ⟨x, t, -, hrecv⟩, -, hbad⟩ | h)
    · obtain ⟨-, -, buffer, hbuffer, hparse⟩ := (x.interface.recvFrame_some hrecv).2
      cases hbuffer
      have hdgram : _ = dgram := congrArg Prod.snd hparse
      rw [← hdgram] at hbad
      exact hbad (by decide +kernel)
    · exact h
  rcases past with _ | ⟨op, _ | ⟨op', past⟩⟩
  · exact (nomatch ·)
  · cases hsplit
    exact hfour
  · simp at hsplit

end Router
end Sponge
