import Sponge.Forwarding
import Sponge.LocalDelivery

/-!
# Hosts and routers on several links

Every link is a local network of its own, and the routers stand between them. Hosts send datagrams,
the links deliver frames as they like, and the routers are told to route from time to time.

What such a network is for is said by `Departs` and `Arrives`, without frames or address
resolution: a datagram goes to the owner of its next hop, and from a router to wherever the routes
say, with one hop less to live. The calls made on the interfaces of one link are a run of that link,
so what the links guarantee carries over, and the network does nothing else.
-/
namespace Sponge

/-- Every call of `route` sends a queued datagram on as the routes say. -/
theorem Router.mem_orders {r : Router} {o : ℕ × NetworkInterface.Op}
    (h : o ∈ r.queued.filterMap r.order) : ∃ n d hop, d ∈ r.queue n ∧
      r.decision d = some (o.1, hop) ∧ o.2 = .sendDatagram (aged d) hop := by
  obtain ⟨d, hd, horder⟩ := List.mem_filterMap.mp h
  obtain ⟨n, -, hmem⟩ := List.mem_flatMap.mp hd
  obtain ⟨⟨m, hop⟩, hdecision, rfl⟩ := Option.map_eq_some_iff.mp horder
  exact ⟨n, d, hop, hmem, hdecision, rfl⟩

/-- None is made on an interface that does not exist. -/
theorem Router.Valid.orders_eq_nil {r : Router} (hr : r.Valid) {k : ℕ}
    (hk : r.interfaces[k]? = none) : ordersFor k (r.queued.filterMap r.order) = [] := by
  rw [ordersFor, List.map_eq_nil_iff, List.filter_eq_nil_iff]
  intro o ho hchosen
  obtain ⟨n, d, nextHop, -, hdecision, -⟩ := mem_orders ho
  obtain ⟨⟨x, own, hsome, -⟩, -⟩ := hr.decision_usable hdecision
  rw [of_decide_eq_true hchosen, hk] at hsome
  cases hsome

theorem Router.Alike.decision_eq {r r' : Router} (h : Alike r r') : r'.decision = r.decision := by
  funext dgram
  rw [decision, decision, search, search, h.routingTable_eq]

/-- Where a link ends: at an interface of a router, or at a host. -/
inductive Port (ρ κ : Type) where
  | router (i : ρ) (n : ℕ)
  | host (k : κ)
  deriving DecidableEq

/-- The links, the addresses of their ends and the routes. -/
structure Layout (ρ κ ℓ : Type) where
  link : Port ρ κ → ℓ
  ethernetAddress : Port ρ κ → EthernetAddress
  ipAddress : Port ρ κ → Address
  width : ρ → ℕ
  routes : ρ → List RouteInformation

/-- The router `i` as it is set up. -/
def Layout.router {ρ κ ℓ : Type} (T : Layout ρ κ ℓ) (i : ρ) : Router where
  interfaces := (List.range (T.width i)).map fun n =>
    { interface := .new (T.ethernetAddress (.router i n)) (T.ipAddress (.router i n)) }
  routingTable := T.routes i

/-- The Ethernet addresses on a link are different, all own addresses are IPv4 ones, and the routes
can be used. -/
structure Topology (ρ κ ℓ : Type) extends Layout ρ κ ℓ where
  distinct : ∀ p q, link p = link q → ethernetAddress p = ethernetAddress q → p = q
  unicast : ∀ p, ethernetAddress p ≠ ethernetBroadcast
  numbered : ∀ p, ∃ ip, (ipAddress p).ipv4 = some ip
  valid : ∀ i, (toLayout.router i).Valid

structure Internetwork (ρ κ : Type) where
  routers : ρ → Router
  hosts : κ → AsyncNetworkInterface

namespace Internetwork
variable {ρ κ : Type}

inductive Event (ρ κ : Type) where
  | recvFrame (p : Port ρ κ) (header : EthernetHeader) (bytes : Buffer)
  | tick (p : Port ρ κ) (ms : ℕ)
  | route (i : ρ)
  | send (k : κ) (dgram : InternetDatagram) (nextHop : Address)

section Step
variable [DecidableEq ρ] [DecidableEq κ]

def setRouter (net : Internetwork ρ κ) (i : ρ) (r : Router) : Internetwork ρ κ :=
  { net with routers := Function.update net.routers i r }

def setHost (net : Internetwork ρ κ) (k : κ) (x : AsyncNetworkInterface) : Internetwork ρ κ :=
  { net with hosts := Function.update net.hosts k x }

omit [DecidableEq ρ] in
theorem hosts_setHost (net : Internetwork ρ κ) (k : κ) (x : AsyncNetworkInterface) :
    (net.setHost k x).hosts = Function.update net.hosts k x := rfl

omit [DecidableEq κ] in
theorem routers_setRouter (net : Internetwork ρ κ) (i : ρ) (r : Router) :
    (net.setRouter i r).routers = Function.update net.routers i r := rfl

def call (net : Internetwork ρ κ) : Event ρ κ → Outcome (Internetwork ρ κ) (Internetwork ρ κ)
  | .recvFrame (.router i n) header bytes =>
    ((net.routers i).call (.recvFrame n header bytes)).within (net.setRouter i)
  | .recvFrame (.host k) header bytes =>
    ((net.hosts k).recvFrame ⟨header, [bytes]⟩).within (net.setHost k)
  | .tick (.router i n) ms => ((net.routers i).call (.tick n ms)).within (net.setRouter i)
  | .tick (.host k) ms => .ok (net.setHost k ((net.hosts k).tick ms))
  | .route i => ((net.routers i).call .route).within (net.setRouter i)
  | .send k dgram nextHop => ((net.hosts k).sendDatagram dgram nextHop).within (net.setHost k)

def step (net : Internetwork ρ κ) (e : Event ρ κ) : Internetwork ρ κ := (net.call e).state

end Step

/-- The datagrams waiting at a port. Nobody takes them from a host: there they are everything it
ever received. -/
def queueAt (net : Internetwork ρ κ) : Port ρ κ → List InternetDatagram
  | .router i n => (net.routers i).queue n
  | .host k => (net.hosts k).datagramsOut

/-- The calls on interfaces that an event comes down to. -/
def calls (net : Internetwork ρ κ) : Event ρ κ → List (Port ρ κ × NetworkInterface.Op)
  | .recvFrame p header bytes => [(p, .recvFrame ⟨header, [bytes]⟩)]
  | .tick p ms => [(p, .tick ms)]
  | .route i => ((net.routers i).queued.filterMap (net.routers i).order).map fun o =>
      (.router i o.1, o.2)
  | .send k dgram nextHop => [(.host k, .sendDatagram dgram nextHop)]

end Internetwork

namespace Topology
open Internetwork

variable {ρ κ ℓ : Type} (T : Topology ρ κ ℓ)

def start : Internetwork ρ κ where
  routers := T.router
  hosts := fun k =>
    { interface := .new (T.ethernetAddress (.host k)) (T.ipAddress (.host k)) }

/-- The port exists. -/
def Attached : Port ρ κ → Prop
  | .router i n => n < T.width i
  | .host _ => True

/-- The interface at a port; nothing ever happens at a port that does not exist. -/
def interfaceAt (net : Internetwork ρ κ) : Port ρ κ → NetworkInterface
  | .router i n => ((net.routers i).interfaces[n]?.map (·.interface)).getD
      (.new (T.ethernetAddress (.router i n)) (T.ipAddress (.router i n)))
  | .host k => (net.hosts k).interface

/-- Frames arrive from the link, and hosts send datagrams that can be sent. -/
def Possible (net : Internetwork ρ κ) : Event ρ κ → Prop
  | .recvFrame p header bytes => T.Attached p ∧ ∃ q, T.link q = T.link p ∧
      ∃ f ∈ (T.interfaceAt net q).framesOut, f.Carries ⟨header, [bytes]⟩
  | .tick p _ => T.Attached p
  | .route _ => True
  | .send _ dgram nextHop => dgram.Sendable ∧ ∃ ip, nextHop.ipv4 = some ip

def machine [DecidableEq ρ] [DecidableEq κ] : Machine (Internetwork ρ κ) (Event ρ κ) :=
  ⟨step, T.Possible⟩

section Forwarding
variable (k₀ : κ) (d₀ : InternetDatagram) (h₀ : Address)

/-- The datagram sent by the host `k₀` for the next hop `h₀` leaves the port for its next hop, after
so many routers. -/
inductive Departs : ℕ → Port ρ κ → InternetDatagram → Address → Prop
  | sent : Departs 0 (.host k₀) d₀ h₀
  | relayed {hops : ℕ} {p : Port ρ κ} {d : InternetDatagram} {hop hop' : Address} {i : ρ} {n m : ℕ}
      (h : Departs hops p d hop) (hn : n < T.width i)
      (hlink : T.link (.router i n) = T.link p) (hip : hop.ipv4 = (T.ipAddress (.router i n)).ipv4)
      (hdecision : (T.router i).decision d.arrival = some (m, hop')) :
      Departs (hops + 1) (.router i m) (Router.aged d.arrival) hop'

/-- It arrives at the owner of its next hop on the link. -/
structure Arrives (hops : ℕ) (q : Port ρ κ) (dgram : InternetDatagram) : Prop where
  departed : ∃ p d hop, T.Departs k₀ d₀ h₀ hops p d hop ∧ T.link q = T.link p ∧
    hop.ipv4 = (T.ipAddress q).ipv4 ∧ dgram = d.arrival

variable {T k₀ d₀ h₀}

/-- `d` is `d₀` after so many routers: they count down the hops it has to live, and touch nothing
else but the checksum. -/
structure Aged (d₀ d : InternetDatagram) (hops : ℕ) : Prop where
  header_eq : { d.header with ttl := d₀.header.ttl, cksum := d₀.header.cksum } = d₀.header
  payload_eq : d.payload.concatenate = d₀.payload.concatenate
  ttl_eq : d.header.ttl.toNat + hops = d₀.header.ttl.toNat
  alive : 0 < hops → 0 < d.header.ttl.toNat

theorem Aged.arrival {d : InternetDatagram} {hops : ℕ} (h : Aged d₀ d hops) :
    Aged d₀ d.arrival hops := by
  refine ⟨h.header_eq, ?_, h.ttl_eq, h.alive⟩
  rw [← h.payload_eq]
  simp [IPv4Datagram.arrival, BufferList.concatenate]

theorem Aged.aged {d : InternetDatagram} {hops : ℕ} (h : Aged d₀ d hops)
    (httl : 1 < d.header.ttl) : Aged d₀ (Router.aged d) (hops + 1) := by
  have hlt : 1 < d.header.ttl.toNat := UInt8.lt_iff_toNat_lt.mp httl
  have hsub : (d.header.ttl - 1).toNat = d.header.ttl.toNat - 1 :=
    UInt8.toNat_sub_of_le _ _ (UInt8.le_iff_toNat_le.mpr (Nat.le_of_lt hlt))
  have httl_eq := h.ttl_eq
  refine ⟨h.header_eq, h.payload_eq, ?_, fun _ => ?_⟩
  · change (d.header.ttl - 1).toNat + (hops + 1) = _
    omega
  · change 0 < (d.header.ttl - 1).toNat
    omega

theorem Departs.aged {hops : ℕ} {p : Port ρ κ} {d : InternetDatagram} {hop : Address}
    (h : T.Departs k₀ d₀ h₀ hops p d hop) : Aged d₀ d hops := by
  induction h with
  | sent => exact ⟨rfl, rfl, rfl, fun hpos => absurd hpos (Nat.lt_irrefl 0)⟩
  | @relayed hops p d hop hop' i n m _ _ _ _ hdecision ih =>
    refine ih.arrival.aged ?_
    by_contra hlow
    rw [Router.decision, if_pos (UInt8.not_lt.mp hlow)] at hdecision
    cases hdecision

theorem Departs.attached {hops : ℕ} {p : Port ρ κ} {d : InternetDatagram} {hop : Address}
    (h : T.Departs k₀ d₀ h₀ hops p d hop) : T.Attached p := by
  cases h with
  | sent => trivial
  | @relayed hops p d hop hop' i n m _ _ _ _ hdecision =>
    obtain ⟨⟨x, own, hx, -⟩, -⟩ := (T.valid i).decision_usable hdecision
    obtain ⟨hm, -⟩ := List.getElem?_eq_some_iff.mp hx
    simp only [Layout.router, List.length_map, List.length_range] at hm
    exact hm

end Forwarding

/-- The calls on one port among those on all of them. -/
def callsAt [DecidableEq ρ] [DecidableEq κ] (p : Port ρ κ)
    (calls : List (Port ρ κ × NetworkInterface.Op)) : List NetworkInterface.Op :=
  (calls.filter (·.1 = p)).map (·.2)

section Performs
variable [DecidableEq ρ] [DecidableEq κ] {T} {net net' : Internetwork ρ κ} {e : Event ρ κ}

variable (T) in
/-- The event does what its calls on the interfaces do, and fills no queue except by a frame. -/
structure Performs (net : Internetwork ρ κ) (e : Event ρ κ) (net' : Internetwork ρ κ) : Prop where
  call_eq : net.call e = .ok net'
  alike : ∀ i, Router.Alike (T.router i) (net'.routers i)
  interface_eq : ∀ p, T.interfaceAt net' p =
    NetworkInterface.calls.run (T.interfaceAt net p) (callsAt p (net.calls e))
  queued : ∀ p, ∀ d ∈ net'.queueAt p, d ∈ net.queueAt p ∨
    ∃ header bytes t, e = .recvFrame p header bytes ∧
      (T.interfaceAt net p).recvFrame ⟨header, [bytes]⟩ = .ok (some d, t)

theorem callsAt_singleton (p q : Port ρ κ) (op : NetworkInterface.Op) :
    callsAt p [(q, op)] = if q = p then [op] else [] := by
  by_cases h : q = p <;> simp [callsAt, h]

theorem callsAt_router_map (i : ρ) (k : ℕ) (orders : List (ℕ × NetworkInterface.Op)) :
    callsAt (.router i k : Port ρ κ) (orders.map fun o => (.router i o.1, o.2)) =
      Router.ordersFor k orders := by
  simp [callsAt, Router.ordersFor, List.filter_map, Function.comp_def]

theorem callsAt_router_map_ne {i j : ρ} (hj : j ≠ i) (k : ℕ)
    (orders : List (ℕ × NetworkInterface.Op)) :
    callsAt (.router j k : Port ρ κ) (orders.map fun o => (.router i o.1, o.2)) = [] := by
  simp [callsAt, List.filter_map, Function.comp_def, Ne.symm hj]

theorem callsAt_host_map (i : ρ) (k : κ) (orders : List (ℕ × NetworkInterface.Op)) :
    callsAt (.host k : Port ρ κ) (orders.map fun o => (.router i o.1, o.2)) = [] := by
  simp [callsAt, List.filter_map, Function.comp_def]

omit [DecidableEq ρ] [DecidableEq κ] in
variable (T) in
theorem width_eq (halike : ∀ i, Router.Alike (T.router i) (net.routers i)) (i : ρ) :
    (net.routers i).interfaces.length = T.width i := by
  rw [(halike i).length_eq]
  simp [Layout.router]

omit [DecidableEq ρ] [DecidableEq κ] in
theorem interfaceAt_of_getElem? {i : ρ} {n : ℕ} {x : AsyncNetworkInterface}
    (hx : (net.routers i).interfaces[n]? = some x) :
    T.interfaceAt net (.router i n) = x.interface := by
  rw [interfaceAt, hx]
  rfl

theorem interfaceAt_setHost (k : κ) (x : AsyncNetworkInterface) (p : Port ρ κ) :
    T.interfaceAt (net.setHost k x) p =
      if .host k = p then x.interface else T.interfaceAt net p := by
  cases p with
  | router i n => rfl
  | host k' =>
    by_cases hk : k = k'
    · subst hk
      simp [interfaceAt, setHost]
    · simp [interfaceAt, setHost, Function.update_of_ne (Ne.symm hk), hk]

theorem interfaceAt_setInterface {i : ρ} {n : ℕ} {x : AsyncNetworkInterface}
    (hx : (net.routers i).interfaces[n]? = some x) (y : AsyncNetworkInterface) (p : Port ρ κ) :
    T.interfaceAt (net.setRouter i ((net.routers i).setInterface n y)) p =
      if .router i n = p then y.interface else T.interfaceAt net p := by
  obtain ⟨hn, -⟩ := List.getElem?_eq_some_iff.mp hx
  cases p with
  | host k => rfl
  | router i' n' =>
    by_cases hi : i = i'
    · subst hi
      by_cases hm : n = n'
      · subst hm
        simp [interfaceAt, setRouter, Router.setInterface, List.getElem?_set_self hn]
      · simp [interfaceAt, setRouter, Router.setInterface, List.getElem?_set_ne hm, hm]
    · simp [interfaceAt, setRouter, Function.update_of_ne (Ne.symm hi), hi]

variable (halike : ∀ i, Router.Alike (T.router i) (net.routers i))
include halike

theorem performs_setHost {k : κ} {x : AsyncNetworkInterface} {op : NetworkInterface.Op}
    (hcall : net.call e = .ok (net.setHost k x)) (hcalls : net.calls e = [(.host k, op)])
    (hx : x.interface = (net.hosts k).interface.step op)
    (hqueue : ∀ d ∈ x.datagramsOut, d ∈ (net.hosts k).datagramsOut ∨ ∃ header bytes t,
      e = .recvFrame (.host k) header bytes ∧
        (net.hosts k).interface.recvFrame ⟨header, [bytes]⟩ = .ok (some d, t)) :
    T.Performs net e (net.setHost k x) := by
  refine ⟨hcall, halike, fun p => ?_, fun p d hd => ?_⟩
  · rw [interfaceAt_setHost, hcalls, callsAt_singleton]
    split
    · next hp =>
      subst hp
      exact hx
    · rfl
  · cases p with
    | router i n => exact Or.inl hd
    | host k' =>
      by_cases hk : k' = k
      · subst hk
        rw [queueAt, hosts_setHost, Function.update_self] at hd
        exact hqueue d hd
      · rw [queueAt, hosts_setHost, Function.update_of_ne hk] at hd
        exact Or.inl hd

theorem performs_setInterface {i : ρ} {n : ℕ} {x y : AsyncNetworkInterface}
    {op : NetworkInterface.Op} (hx : (net.routers i).interfaces[n]? = some x)
    (hcall : net.call e = .ok (net.setRouter i ((net.routers i).setInterface n y)))
    (hcalls : net.calls e = [(.router i n, op)]) (hy : y.interface = x.interface.step op)
    (hqueue : ∀ d ∈ y.datagramsOut, d ∈ x.datagramsOut ∨ ∃ header bytes t,
      e = .recvFrame (.router i n) header bytes ∧
        x.interface.recvFrame ⟨header, [bytes]⟩ = .ok (some d, t)) :
    T.Performs net e (net.setRouter i ((net.routers i).setInterface n y)) := by
  refine ⟨hcall, fun j => ?_, fun p => ?_, fun p d hd => ?_⟩
  · by_cases hj : j = i
    · subst hj
      rw [routers_setRouter, Function.update_self]
      refine (halike j).trans (Router.alike_setInterface hx ?_)
      rw [hy]
      exact (x.interface.step_addresses op).1
    · rw [routers_setRouter, Function.update_of_ne hj]
      exact halike j
  · rw [interfaceAt_setInterface hx, hcalls, callsAt_singleton]
    split
    · next hp =>
      subst hp
      rw [interfaceAt_of_getElem? hx]
      exact hy
    · rfl
  · cases p with
    | host k => exact Or.inl hd
    | router j m =>
      by_cases hj : j = i
      · subst hj
        rw [queueAt, routers_setRouter, Function.update_self, Router.queue_setInterface hx] at hd
        by_cases hm : m = n
        · subst hm
          rw [Function.update_self] at hd
          rw [queueAt, Router.queue_eq hx, interfaceAt_of_getElem? hx]
          exact hqueue d hd
        · rw [Function.update_of_ne hm] at hd
          exact Or.inl hd
      · rw [queueAt, routers_setRouter, Function.update_of_ne hj] at hd
        exact Or.inl hd

theorem performs_recvFrame {p : Port ρ κ} {header : EthernetHeader} {bytes : Buffer}
    (hp : T.Attached p) {own : UInt32} (hown : (T.interfaceAt net p).ipAddress.ipv4 = some own) :
    ∃ net', T.Performs net (.recvFrame p header bytes) net' := by
  cases p with
  | router i n =>
    obtain ⟨x, hx⟩ : ∃ x, (net.routers i).interfaces[n]? = some x :=
      ⟨_, List.getElem?_eq_getElem (by rw [width_eq T halike]; exact hp)⟩
    rw [interfaceAt_of_getElem? hx] at hown
    obtain ⟨r, t, hrecv⟩ := x.interface.recvFrame_isOk hown header bytes
    refine ⟨_, performs_setInterface halike hx
      (y := { interface := t, datagramsOut := x.datagramsOut ++ r.toList }) ?_ rfl
      (NetworkInterface.step_recvFrame hrecv).symm ?_⟩
    · simp [call, Router.call, Router.interface_eq hx, AsyncNetworkInterface.recvFrame, hrecv, bind,
        Except.bind, pure, Except.pure]
    · intro d hd
      rcases List.mem_append.mp hd with hold | hnew
      · exact Or.inl hold
      · rw [Option.mem_toList] at hnew
        cases hnew
        exact Or.inr ⟨header, bytes, t, rfl, hrecv⟩
  | host k =>
    obtain ⟨r, t, hrecv⟩ := (net.hosts k).interface.recvFrame_isOk hown header bytes
    refine ⟨_, performs_setHost halike
      (x := { interface := t, datagramsOut := (net.hosts k).datagramsOut ++ r.toList }) ?_ rfl
      (NetworkInterface.step_recvFrame hrecv).symm ?_⟩
    · simp [call, AsyncNetworkInterface.recvFrame, hrecv, bind, Except.bind, pure, Except.pure]
    · intro d hd
      rcases List.mem_append.mp hd with hold | hnew
      · exact Or.inl hold
      · rw [Option.mem_toList] at hnew
        cases hnew
        exact Or.inr ⟨header, bytes, t, rfl, hrecv⟩

theorem performs_tick {p : Port ρ κ} {ms : ℕ} (hp : T.Attached p) :
    ∃ net', T.Performs net (.tick p ms) net' := by
  cases p with
  | router i n =>
    obtain ⟨x, hx⟩ : ∃ x, (net.routers i).interfaces[n]? = some x :=
      ⟨_, List.getElem?_eq_getElem (by rw [width_eq T halike]; exact hp)⟩
    refine ⟨_, performs_setInterface halike hx (y := x.tick ms) ?_ rfl rfl fun d hd => Or.inl hd⟩
    simp [call, Router.call, Router.interface_eq hx, bind, Except.bind, pure, Except.pure]
  | host k => exact ⟨_, performs_setHost halike rfl rfl rfl fun d hd => Or.inl hd⟩

theorem performs_send {k : κ} {dgram : InternetDatagram} {nextHop : Address}
    (hdgram : dgram.Sendable) {ip own : UInt32} (hip : nextHop.ipv4 = some ip)
    (hown : (T.interfaceAt net (.host k)).ipAddress.ipv4 = some own) :
    ∃ net', T.Performs net (.send k dgram nextHop) net' := by
  have hbytes := IPv4Datagram.serialize_eq hdgram.ver_eq hdgram.hlen_ge hdgram.size_eq
  obtain ⟨t, ht⟩ := (net.hosts k).interface.sendDatagram_of_serializes hown hip hbytes
  refine ⟨_, performs_setHost halike (x := { net.hosts k with interface := t }) ?_ rfl
    (NetworkInterface.step_sendDatagram ht).symm fun d hd => Or.inl hd⟩
  simp [call, AsyncNetworkInterface.sendDatagram, ht]

/-- The calls of `route` reach the interfaces of this router only. -/
theorem interfaceAt_route {i : ρ} {r : Router}
    (hexecutes : Router.Executes (net.routers i)
      ((net.routers i).queued.filterMap (net.routers i).order) r) (p : Port ρ κ) :
    T.interfaceAt (net.setRouter i r) p =
      NetworkInterface.calls.run (T.interfaceAt net p) (callsAt p (net.calls (.route i))) := by
  have hvalid := (halike i).valid (T.valid i)
  cases p with
  | host k =>
    rw [calls, callsAt_host_map]
    rfl
  | router j k =>
    by_cases hj : j = i
    · subst hj
      rw [calls, callsAt_router_map, interfaceAt, interfaceAt, routers_setRouter,
        Function.update_self]
      cases hx : (net.routers j).interfaces[k]? with
      | some x =>
        obtain ⟨x', hx', hrun⟩ := hexecutes.interface_eq k x hx
        rw [hx', Option.map_some, Option.getD_some, hrun, Option.map_some, Option.getD_some]
      | none =>
        have hnone : r.interfaces[k]? = none := by
          rw [List.getElem?_eq_none_iff] at hx ⊢
          rw [hexecutes.alike.length_eq]
          exact hx
        rw [hnone, hvalid.orders_eq_nil hx]
        rfl
    · rw [calls, callsAt_router_map_ne hj, interfaceAt, interfaceAt, routers_setRouter,
        Function.update_of_ne hj]
      rfl

theorem performs_route {i : ρ}
    (hqueue : ∀ n, ∀ d ∈ (net.routers i).queue n, IPv4Datagram.Sendable d) :
    ∃ net', T.Performs net (.route i) net' := by
  have hvalid := (halike i).valid (T.valid i)
  obtain ⟨r, hroute, hexecutes, hempty⟩ := Router.executes_route hvalid hqueue
  refine ⟨net.setRouter i r, ?_, fun j => ?_, fun p => ?_, fun p d hd => ?_⟩
  · simp [call, Router.call, hroute]
  · by_cases hj : j = i
    · subst hj
      rw [routers_setRouter, Function.update_self]
      exact (halike j).trans hexecutes.alike
    · rw [routers_setRouter, Function.update_of_ne hj]
      exact halike j
  · exact interfaceAt_route halike hexecutes p
  · cases p with
    | host k => exact Or.inl hd
    | router j n =>
      by_cases hj : j = i
      · subst hj
        rw [queueAt, routers_setRouter, Function.update_self, hempty] at hd
        cases hd
      · rw [queueAt, routers_setRouter, Function.update_of_ne hj] at hd
        exact Or.inl hd

/-- What a port hands up joins its queue. -/
theorem mem_queueAt_of_recvFrame {p : Port ρ κ} {header : EthernetHeader} {bytes : Buffer}
    {d : InternetDatagram} {t : NetworkInterface} (hp : T.Attached p)
    (hrecv : (T.interfaceAt net p).recvFrame ⟨header, [bytes]⟩ = .ok (some d, t)) :
    d ∈ (T.machine.step net (.recvFrame p header bytes)).queueAt p := by
  change d ∈ (net.call (.recvFrame p header bytes)).state.queueAt p
  cases p with
  | router i n =>
    obtain ⟨x, hx⟩ : ∃ x, (net.routers i).interfaces[n]? = some x :=
      ⟨_, List.getElem?_eq_getElem (by rw [width_eq T halike]; exact hp)⟩
    rw [interfaceAt_of_getElem? hx] at hrecv
    have hcall : net.call (.recvFrame (.router i n) header bytes) =
        .ok (net.setRouter i ((net.routers i).setInterface n
          { interface := t, datagramsOut := x.datagramsOut ++ [d] })) := by
      simp [call, Router.call, Router.interface_eq hx, AsyncNetworkInterface.recvFrame, hrecv, bind,
        Except.bind, pure, Except.pure]
    rw [hcall]
    change d ∈ ((net.setRouter i _).routers i).queue n
    rw [routers_setRouter, Function.update_self, Router.queue_setInterface hx, Function.update_self]
    exact List.mem_append_right _ (List.mem_singleton_self d)
  | host k =>
    have hcall : net.call (.recvFrame (.host k) header bytes) = .ok (net.setHost k
        { interface := t, datagramsOut := (net.hosts k).datagramsOut ++ [d] }) := by
      have hhost : (net.hosts k).interface.recvFrame ⟨header, [bytes]⟩ = .ok (some d, t) := hrecv
      simp [call, AsyncNetworkInterface.recvFrame, hhost, bind, Except.bind, pure, Except.pure]
    rw [hcall]
    change d ∈ ((net.setHost k _).hosts k).datagramsOut
    rw [hosts_setHost, Function.update_self]
    exact List.mem_append_right _ (List.mem_singleton_self d)

omit halike in
theorem exists_performs (halike : ∀ i, Router.Alike (T.router i) (net.routers i))
    (hown : ∀ p, ∃ own, (T.interfaceAt net p).ipAddress.ipv4 = some own)
    (hqueue : ∀ i n, ∀ d ∈ (net.routers i).queue n, IPv4Datagram.Sendable d)
    (hpossible : T.Possible net e) : T.Performs net e (T.machine.step net e) := by
  obtain ⟨net', h⟩ : ∃ net', T.Performs net e net' := by
    cases e with
    | recvFrame p header bytes =>
      obtain ⟨own, hown⟩ := hown p
      exact performs_recvFrame halike hpossible.1 hown
    | tick p ms => exact performs_tick halike hpossible
    | route i => exact performs_route halike (hqueue i)
    | send k dgram nextHop =>
      obtain ⟨ip, hip⟩ := hpossible.2
      obtain ⟨own, hown⟩ := hown (.host k)
      exact performs_send halike hpossible.1 hip hown
  have hstep : T.machine.step net e = net' := by
    change (net.call e).state = net'
    rw [h.call_eq]
    rfl
  rw [hstep]
  exact h

end Performs

section Links
variable [DecidableEq ρ] [DecidableEq κ] [DecidableEq ℓ] (l : ℓ)

/-- The interfaces on a link are a local network. -/
def segment (net : Internetwork ρ κ) : LocalNetwork { p // T.link p = l } :=
  fun p => T.interfaceAt net p

def onLink (c : Port ρ κ × NetworkInterface.Op) :
    Option (LocalNetwork.Event { p // T.link p = l }) :=
  if h : T.link c.1 = l then some (⟨c.1, h⟩, c.2) else none

/-- The calls made on the interfaces of a link. -/
def trace (events : List (Event ρ κ)) : List (LocalNetwork.Event { p // T.link p = l }) :=
  (T.machine.collect calls T.start events).filterMap (T.onLink l)

variable {T l}

omit [DecidableEq ρ] [DecidableEq κ] in
theorem onLink_eq_some {c : Port ρ κ × NetworkInterface.Op} {p : { p // T.link p = l }}
    {op : NetworkInterface.Op} : T.onLink l c = some (p, op) ↔ c = (p.1, op) := by
  obtain ⟨q, op'⟩ := c
  obtain ⟨p, hp⟩ := p
  rw [onLink]
  split
  · simp
  · next hq =>
    refine ⟨fun h => (nomatch h), fun h => ?_⟩
    rw [(Prod.mk.inj h).1] at hq
    exact absurd hp hq

theorem filterMap_onLink (calls : List (Port ρ κ × NetworkInterface.Op))
    (p : { p // T.link p = l }) :
    ((calls.filterMap (T.onLink l)).filter (·.1 = p)).map (·.2) = callsAt p.1 calls := by
  induction calls with
  | nil => rfl
  | cons c calls ih =>
    obtain ⟨q, op⟩ := c
    rw [callsAt] at ih ⊢
    by_cases hq : q = p.1
    · have hsome : T.onLink l (q, op) = some (p, op) := onLink_eq_some.mpr (by rw [hq])
      rw [List.filterMap_cons_some hsome, List.filter_cons_of_pos (by simp),
        List.filter_cons_of_pos (by simpa using hq), List.map_cons, List.map_cons, ih]
    · rw [List.filter_cons_of_neg (by simpa using hq), ← ih]
      cases hc : T.onLink l (q, op) with
      | none => rw [List.filterMap_cons_none hc]
      | some event =>
        rw [List.filterMap_cons_some hc, List.filter_cons_of_neg]
        have heq := onLink_eq_some.mp hc
        simp only [decide_eq_true_eq]
        rintro rfl
        exact hq (Prod.mk.inj heq).1

theorem run_segment (net : Internetwork ρ κ) (calls : List (Port ρ κ × NetworkInterface.Op))
    (p : { p // T.link p = l }) :
    LocalNetwork.machine.run (T.segment l net) (calls.filterMap (T.onLink l)) p =
      NetworkInterface.calls.run (T.interfaceAt net p) (callsAt p.1 calls) := by
  rw [LocalNetwork.run_apply, filterMap_onLink]
  rfl

/-- What the links and the routers are after the events. -/
structure Follows (past : List (Event ρ κ)) : Prop where
  alike : ∀ i, Router.Alike (T.router i) ((T.machine.run T.start past).routers i)
  admits : ∀ l, LocalNetwork.machine.Admits (T.segment l T.start) (T.trace l past)
  run_eq : ∀ l, LocalNetwork.machine.run (T.segment l T.start) (T.trace l past) =
    T.segment l (T.machine.run T.start past)
  queued : ∀ p, ∀ d ∈ (T.machine.run T.start past).queueAt p,
    d.Sendable ∧ ∃ k₀ d₀ h₀ hops, .send k₀ d₀ h₀ ∈ past ∧ T.Arrives k₀ d₀ h₀ hops p d
  departed : ∀ p d hop, (p, .sendDatagram d hop) ∈ T.machine.collect calls T.start past →
    ∃ k₀ d₀ h₀ hops, .send k₀ d₀ h₀ ∈ past ∧ T.Departs k₀ d₀ h₀ hops p d hop

omit [DecidableEq ρ] [DecidableEq κ] [DecidableEq ℓ] in
theorem segment_start (l : ℓ) : T.segment l T.start = LocalNetwork.start
    (fun p : { p // T.link p = l } => T.ethernetAddress p)
    (fun p => T.ipAddress p) := by
  funext p
  obtain ⟨p, hp⟩ := p
  cases p with
  | host k => rfl
  | router i n =>
    change (((T.router i).interfaces[n]?.map (·.interface)).getD _) = _
    by_cases hn : n < T.width i
    · simp [Layout.router, hn, LocalNetwork.start]
    · simp [Layout.router, hn, LocalNetwork.start]

section Steps
variable {past : List (Event ρ κ)} {e : Event ρ κ} (h : T.Follows past)
include h

/-- What a port hands up has arrived there. -/
theorem Follows.arrives {q : Port ρ κ} {header : EthernetHeader} {bytes : Buffer}
    {dgram : InternetDatagram} {t : NetworkInterface}
    (hpossible : T.Possible (T.machine.run T.start past) (.recvFrame q header bytes))
    (hrecv : (T.interfaceAt (T.machine.run T.start past) q).recvFrame ⟨header, [bytes]⟩ =
      .ok (some dgram, t)) :
    dgram.Sendable ∧ ∃ k₀ d₀ h₀ hops, .send k₀ d₀ h₀ ∈ past ∧
      T.Arrives k₀ d₀ h₀ hops q dgram := by
  have hadmits := h.admits (T.link q)
  have hrun := h.run_eq (T.link q)
  rw [segment_start] at hadmits hrun
  have hcoherent := LocalNetwork.coherent_run hadmits
  obtain ⟨-, p, hp, f, hf, hcarries⟩ := hpossible
  obtain ⟨j, d, hop, hmem, hsendable, hip, rfl⟩ := hcoherent.handsUp (i := ⟨q, rfl⟩)
    (fun a b hab => Subtype.ext (T.distinct a b (a.2.trans b.2.symm) hab)) (fun a => T.unicast a)
    (by rw [hrun]; exact ⟨⟨p, hp⟩, f, hf, hcarries⟩) (by rw [hrun]; exact hrecv)
  obtain ⟨c, hc, hcalled⟩ := List.mem_filterMap.mp hmem
  rw [onLink_eq_some.mp hcalled] at hc
  obtain ⟨k₀, d₀, h₀, hops, hsent, hdeparts⟩ := h.departed j d hop hc
  exact ⟨hsendable.arrival, k₀, d₀, h₀, hops, hsent, j, d, hop, hdeparts, j.2.symm, hip, rfl⟩

/-- The addresses stay as they were given out. -/
theorem Follows.own_eq (p : Port ρ κ) :
    (T.interfaceAt (T.machine.run T.start past) p).ipAddress = T.ipAddress p := by
  have hadmits := h.admits (T.link p)
  have hrun := h.run_eq (T.link p)
  rw [segment_start] at hadmits hrun
  have hown := ((LocalNetwork.coherent_run hadmits).trusted ⟨p, rfl⟩).ipAddress_eq
  rwa [hrun] at hown

theorem Follows.performs (hpossible : T.Possible (T.machine.run T.start past) e) :
    T.Performs (T.machine.run T.start past) e (T.machine.run T.start (past ++ [e])) := by
  rw [T.machine.run_snoc]
  have hown : ∀ p, ∃ own, (T.interfaceAt (T.machine.run T.start past) p).ipAddress.ipv4 =
      some own := fun p => by
    rw [h.own_eq p]
    exact T.numbered p
  exact exists_performs h.alike hown (fun i n d hd => (h.queued (.router i n) d hd).1) hpossible

theorem Follows.sends {p : Port ρ κ} {d : InternetDatagram} {hop : Address}
    (hpossible : T.Possible (T.machine.run T.start past) e)
    (hmem : (p, .sendDatagram d hop) ∈ (T.machine.run T.start past).calls e) :
    d.Sendable ∧ ∃ k₀ d₀ h₀ hops, .send k₀ d₀ h₀ ∈ past ++ [e] ∧
      T.Departs k₀ d₀ h₀ hops p d hop := by
  cases e with
  | recvFrame q header bytes => simp [calls] at hmem
  | tick q ms => simp [calls] at hmem
  | send k dgram nextHop =>
    simp only [calls, List.mem_singleton, Prod.mk.injEq, NetworkInterface.Op.sendDatagram.injEq]
      at hmem
    obtain ⟨rfl, rfl, rfl⟩ := hmem
    exact ⟨hpossible.1, k, d, hop, 0, List.mem_append_right _ (List.mem_singleton_self _), .sent⟩
  | route i =>
    obtain ⟨o, ho, heq⟩ := List.mem_map.mp hmem
    obtain ⟨n, d', nextHop, hd', hdecision, hop_eq⟩ := Router.mem_orders ho
    obtain ⟨rfl, hop_eq'⟩ := Prod.mk.inj heq
    rw [hop_eq] at hop_eq'
    cases hop_eq'
    obtain ⟨hsendable, k₀, d₀, h₀, hops, hsent, p, d, hop', hdeparts, hlink, hip, rfl⟩ :=
      h.queued (.router i n) d' hd'
    refine ⟨Router.sendable_aged hsendable, k₀, d₀, h₀, hops + 1, List.mem_append_left _ hsent,
      .relayed hdeparts ?_ hlink hip ?_⟩
    · rw [← width_eq T h.alike]
      by_contra hn
      rw [Router.queue, List.getElem?_eq_none (Nat.le_of_not_lt hn)] at hd'
      cases hd'
    · rw [← (h.alike i).decision_eq]
      exact hdecision

theorem Follows.segment_admits (hpossible : T.Possible (T.machine.run T.start past) e) (l : ℓ) :
    LocalNetwork.machine.Admits (T.segment l (T.machine.run T.start past))
      (((T.machine.run T.start past).calls e).filterMap (T.onLink l)) := by
  have hsingle : ∀ (p : Port ρ κ) (op : NetworkInterface.Op),
      (∀ hp : T.link p = l, LocalNetwork.Possible (T.segment l (T.machine.run T.start past))
        (⟨p, hp⟩, op)) →
      LocalNetwork.machine.Admits (T.segment l (T.machine.run T.start past))
        ([(p, op)].filterMap (T.onLink l)) := by
    intro p op hop
    by_cases hp : T.link p = l
    · rw [List.filterMap_cons_some (onLink_eq_some (p := ⟨p, hp⟩).mpr rfl)]
      exact ⟨hop hp, trivial⟩
    · rw [List.filterMap_cons_none (by rw [onLink, dif_neg hp])]
      trivial
  cases e with
  | recvFrame p header bytes =>
    refine hsingle p _ fun hp => ?_
    obtain ⟨-, q, hq, f, hf, hcarries⟩ := hpossible
    exact ⟨⟨q, hq.trans hp⟩, f, hf, hcarries⟩
  | tick p ms => exact hsingle p _ fun _ => trivial
  | send k dgram nextHop => exact hsingle _ _ fun _ => hpossible.1
  | route i =>
    refine LocalNetwork.admits_of_sendable fun event hevent => ?_
    obtain ⟨c, hc, hsome⟩ := List.mem_filterMap.mp hevent
    obtain ⟨o, ho, rfl⟩ := List.mem_map.mp hc
    obtain ⟨n, d, hop, hd, -, hsend⟩ := Router.mem_orders ho
    have heq := onLink_eq_some.mp hsome
    rw [hsend] at heq
    exact ⟨_, hop, (Prod.mk.inj heq).2.symm, Router.sendable_aged (h.queued (.router i n) d hd).1⟩

theorem Follows.snoc (hpossible : T.Possible (T.machine.run T.start past) e) :
    T.Follows (past ++ [e]) := by
  have hperforms := h.performs hpossible
  have htrace : ∀ l, T.trace l (past ++ [e]) = T.trace l past ++
      ((T.machine.run T.start past).calls e).filterMap (T.onLink l) := fun l => by
    rw [trace, T.machine.collect_snoc, List.filterMap_append]
    rfl
  refine ⟨hperforms.alike, fun l => ?_, fun l => ?_, fun p d hd => ?_, fun p d hop hmem => ?_⟩
  · rw [htrace]
    refine (LocalNetwork.machine.admits_append _ _ _).mpr ⟨h.admits l, ?_⟩
    rw [h.run_eq l]
    exact h.segment_admits hpossible l
  · rw [htrace, LocalNetwork.machine.run_append, h.run_eq l]
    funext p
    rw [run_segment]
    exact (hperforms.interface_eq p).symm
  · rcases hperforms.queued p d hd with hold | ⟨header, bytes, t, rfl, hrecv⟩
    · obtain ⟨hsendable, k₀, d₀, h₀, hops, hsent, harrives⟩ := h.queued p d hold
      exact ⟨hsendable, k₀, d₀, h₀, hops, List.mem_append_left _ hsent, harrives⟩
    · obtain ⟨hsendable, k₀, d₀, h₀, hops, hsent, harrives⟩ := h.arrives hpossible hrecv
      exact ⟨hsendable, k₀, d₀, h₀, hops, List.mem_append_left _ hsent, harrives⟩
  · rw [T.machine.collect_snoc] at hmem
    rcases List.mem_append.mp hmem with hold | hnew
    · obtain ⟨k₀, d₀, h₀, hops, hsent, hdeparts⟩ := h.departed p d hop hold
      exact ⟨k₀, d₀, h₀, hops, List.mem_append_left _ hsent, hdeparts⟩
    · exact (h.sends hpossible hnew).2

end Steps

theorem follows_nil : T.Follows [] := by
  refine ⟨fun i => .refl _, fun l => trivial, fun l => rfl, fun p d hd => ?_, fun p d hop => ?_⟩
  · cases p with
    | host k => cases hd
    | router i n =>
      rw [queueAt, Router.queue] at hd
      change d ∈ (((T.router i).interfaces[n]?.map (·.datagramsOut)).getD []) at hd
      by_cases hn : n < T.width i
      · simp [Layout.router, hn] at hd
      · simp [Layout.router, hn] at hd
  · intro hmem
    cases hmem

theorem follows_run {events : List (Event ρ κ)} (hrun : T.machine.Admits T.start events) :
    T.Follows events :=
  T.machine.run_induction follows_nil (fun _ _ _ hpossible h => h.snoc hpossible) hrun

/-- A frame arrives or a router routes. -/
def Passes (_ : Internetwork ρ κ) : Event ρ κ → Prop
  | .recvFrame _ _ _ => True
  | .route _ => True
  | _ => False

section Passage
variable {past later : List (Event ρ κ)}

variable (T) in
/-- The links and the routers take the network on from one run to a longer one. -/
def Passage (past later : List (Event ρ κ)) : Prop :=
  ∃ more, (T.machine.restrict Passes).Admits (T.machine.run T.start past) more ∧
    later = past ++ more

omit [DecidableEq ℓ] in
theorem Passage.refl (past : List (Event ρ κ)) : T.Passage past past :=
  ⟨[], trivial, (List.append_nil _).symm⟩

omit [DecidableEq ℓ] in
theorem Passage.trans {last : List (Event ρ κ)} (h : T.Passage past later)
    (h' : T.Passage later last) : T.Passage past last := by
  obtain ⟨more, hmore, rfl⟩ := h
  obtain ⟨more', hmore', rfl⟩ := h'
  refine ⟨more ++ more', (Machine.admits_append _ _ _ _).mpr ⟨hmore, ?_⟩, List.append_assoc _ _ _⟩
  rwa [T.machine.run_append] at hmore'

omit [DecidableEq ℓ] in
theorem Passage.snoc {e : Event ρ κ} (hpossible : T.Possible (T.machine.run T.start past) e)
    (hpasses : Passes (T.machine.run T.start past) e) : T.Passage past (past ++ [e]) :=
  ⟨[e], ⟨⟨hpossible, hpasses⟩, trivial⟩, rfl⟩

omit [DecidableEq ℓ] in
theorem Passage.admits (h : T.Passage past later) (hpast : T.machine.Admits T.start past) :
    T.machine.Admits T.start later := by
  obtain ⟨more, hmore, rfl⟩ := h
  exact (T.machine.admits_append _ _ _).mpr ⟨hpast, T.machine.admits_of_restrict hmore⟩

/-- Deliveries on one link are deliveries in the network. -/
theorem exists_passage (hpast : T.machine.Admits T.start past) {l : ℓ}
    {more : List (LocalNetwork.Event { p // T.link p = l })}
    (hports : ∀ e ∈ more, T.Attached e.1 ∧ ∃ f : EthernetFrame, e.2 = .recvFrame f.arrival)
    (hmore : LocalNetwork.machine.Admits (T.segment l T.start) (T.trace l past ++ more)) :
    ∃ later, T.Passage past later ∧ T.trace l later = T.trace l past ++ more := by
  induction more generalizing past with
  | nil => exact ⟨past, .refl past, (List.append_nil _).symm⟩
  | cons e more ih =>
    obtain ⟨⟨p, hp⟩, op⟩ := e
    obtain ⟨⟨hattached, f, hop⟩, hrest⟩ := List.forall_mem_cons.mp hports
    cases hop
    have hfollows := follows_run hpast
    obtain ⟨-, hlink, -⟩ := (LocalNetwork.machine.admits_append _ _ _).mp hmore
    rw [hfollows.run_eq l] at hlink
    obtain ⟨⟨q, hq⟩, g, hg, hcarries⟩ := hlink
    have hpossible : T.Possible (T.machine.run T.start past)
        (.recvFrame p f.header f.payload.concatenate) :=
      ⟨hattached, q, hq.trans hp.symm, g, hg, hcarries⟩
    have hpassage : T.Passage past (past ++ [.recvFrame p f.header f.payload.concatenate]) :=
      .snoc hpossible trivial
    have htrace : T.trace l (past ++ [.recvFrame p f.header f.payload.concatenate]) =
        T.trace l past ++ [(⟨p, hp⟩, .recvFrame f.arrival)] := by
      rw [trace, T.machine.collect_snoc, List.filterMap_append]
      exact congrArg _ (List.filterMap_cons_some (onLink_eq_some (p := ⟨p, hp⟩).mpr rfl))
    obtain ⟨later, hlater, heq⟩ := ih (hpassage.admits hpast) hrest (by
      rw [htrace, List.append_assoc]
      exact hmore)
    refine ⟨later, hpassage.trans hlater, ?_⟩
    rw [heq, htrace, List.append_assoc]
    rfl

variable (hip : ∀ p q, T.link p = T.link q → (T.ipAddress p).ipv4 = (T.ipAddress q).ipv4 → p = q)
  (hpast : T.machine.Admits T.start past)
include hip hpast

/-- A datagram sent to the owner of its next hop can be taken there. -/
theorem exists_arrival {p q : Port ρ κ} {d : InternetDatagram} {hop : Address} (hp : T.Attached p)
    (hq : T.Attached q) (hcall : (p, .sendDatagram d hop) ∈ T.machine.collect calls T.start past)
    (hlink : T.link q = T.link p) (hhop : hop.ipv4 = (T.ipAddress q).ipv4) :
    ∃ later, T.Passage past later ∧ d.arrival ∈ (T.machine.run T.start later).queueAt q := by
  have hadmits := (follows_run hpast).admits (T.link q)
  have hmem : ((⟨p, hlink.symm⟩, .sendDatagram d hop) :
      LocalNetwork.Event { p // T.link p = T.link q }) ∈ T.trace (T.link q) past :=
    List.mem_filterMap.mpr ⟨_, hcall, onLink_eq_some.mpr rfl⟩
  rw [segment_start] at hadmits
  obtain ⟨more, f, hports, hmore, hread⟩ := LocalNetwork.exists_delivery
    (fun p : { p // T.link p = T.link q } => T.numbered p) hadmits (j := ⟨q, rfl⟩)
    (fun a ha => Subtype.ext (hip a q a.2 ha)) hmem hhop
  rw [← segment_start] at hmore hread
  obtain ⟨hmid, hlast⟩ := (LocalNetwork.machine.admits_append _ _ _).mp hmore
  obtain ⟨later, hpassage, htrace⟩ := exists_passage hpast (fun e he => by
    obtain ⟨hend, hframe⟩ := hports e he
    refine ⟨?_, hframe⟩
    rcases hend with heq | heq
    · rw [heq]
      exact hp
    · rw [heq]
      exact hq) hmid
  have hfollows := follows_run (hpassage.admits hpast)
  rw [← htrace, hfollows.run_eq] at hlast hread
  obtain ⟨⟨⟨o, ho⟩, g, hg, hcarries⟩, -⟩ := hlast
  have hpossible : T.Possible (T.machine.run T.start later)
      (.recvFrame q f.header f.payload.concatenate) := ⟨hq, o, ho, g, hg, hcarries⟩
  refine ⟨_, hpassage.trans (.snoc hpossible trivial), ?_⟩
  rw [T.machine.run_snoc]
  exact mem_queueAt_of_recvFrame hfollows.alike hq hread

omit hip in
/-- A router sends on what stands in one of its queues. -/
theorem exists_relay {i : ρ} {n m : ℕ} {d : InternetDatagram} {hop : Address}
    (hqueue : d ∈ (T.machine.run T.start past).queueAt (.router i n))
    (hdecision : (T.router i).decision d = some (m, hop)) :
    ∃ later, T.Passage past later ∧
      (.router i m, .sendDatagram (Router.aged d) hop) ∈ T.machine.collect calls T.start later := by
  have halike := (follows_run hpast).alike i
  refine ⟨past ++ [.route i], .snoc (e := .route i) trivial trivial, ?_⟩
  rw [T.machine.collect_snoc]
  refine List.mem_append_right _ (List.mem_map.mpr
    ⟨(m, .sendDatagram (Router.aged d) hop), List.mem_filterMap.mpr ⟨d, ?_, ?_⟩, rfl⟩)
  · refine List.mem_flatMap.mpr ⟨n, List.mem_range.mpr ?_, hqueue⟩
    by_contra hn
    rw [queueAt, Router.queue, List.getElem?_eq_none (Nat.le_of_not_lt hn)] at hqueue
    cases hqueue
  · rw [Router.order, halike.decision_eq, hdecision]
    rfl

omit hpast in
theorem Departs.passage {k₀ : κ} {d₀ : InternetDatagram} {h₀ : Address} {hops : ℕ} {p : Port ρ κ}
    {d : InternetDatagram} {hop : Address} (h : T.Departs k₀ d₀ h₀ hops p d hop)
    (hpast : T.machine.Admits T.start past) (hsent : .send k₀ d₀ h₀ ∈ past) :
    ∃ later, T.Passage past later ∧
      (p, .sendDatagram d hop) ∈ T.machine.collect calls T.start later := by
  induction h with
  | sent =>
    obtain ⟨before, after, rfl⟩ := List.append_of_mem hsent
    refine ⟨_, .refl _, ?_⟩
    rw [T.machine.collect_append, T.machine.collect_cons]
    exact List.mem_append_right _ (List.mem_append_left _ (List.mem_singleton_self _))
  | relayed h hn hlink hhop hdecision ih =>
    obtain ⟨there, hthere, hcall⟩ := ih
    have hadmits := hthere.admits hpast
    obtain ⟨across, hacross, hqueue⟩ := exists_arrival hip hadmits h.attached
      (q := .router _ _) hn hcall hlink hhop
    obtain ⟨later, hlater, hrelay⟩ := exists_relay (hacross.admits hadmits) hqueue hdecision
    exact ⟨later, (hthere.trans hacross).trans hlater, hrelay⟩

end Passage

end Links

end Topology
end Sponge
