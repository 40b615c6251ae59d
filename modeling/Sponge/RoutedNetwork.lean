import Sponge.Internetwork

/-!
# What arrives on a routed network

The hosts of a network receive what the routes say and nothing else, and no call throws on the way.
The network of the simulator, a router between seven links, is the example.
-/
namespace Sponge
open Internetwork

/-- The next hop comes from a route. -/
theorem Router.exists_route {r : Router} {dgram : InternetDatagram} {m : ℕ} {hop : Address}
    (h : r.decision dgram = some (m, hop)) :
    ∃ el ∈ r.routingTable, el.nextHop.getD (.fromIPv4Numeric dgram.header.dst) = hop := by
  rw [decision] at h
  split at h
  · cases h
  · dsimp only at h
    rw [aged_dst] at h
    split at h
    · cases h
    · next hmatched =>
      rw [Bool.not_eq_true', Bool.not_eq_false] at hmatched
      obtain ⟨el, hel, -, -, hnext⟩ := search_matched hmatched
      rw [hnext] at h
      exact ⟨el, hel, (Prod.mk.inj (Option.some.inj h)).2⟩

namespace NetworkSimulator

inductive Host where
  | applesauce
  | defaultRouter
  | cherrypie
  | hsRouter
  | dm42
  | dm43
  deriving DecidableEq

def Host.link : Host → ℕ
  | .defaultRouter => 0
  | .applesauce => 1
  | .cherrypie => 3
  | .dm42 => 4
  | .dm43 => 4
  | .hsRouter => 5

def Host.ipAddress : Host → UInt32
  | .applesauce => 0x0A000002
  | .defaultRouter => 0xAB434C01
  | .cherrypie => 0xC0A80002
  | .hsRouter => 0x8FC30001
  | .dm42 => 0xC6B2E52A
  | .dm43 => 0xC6B2E52B

def routerAddresses : List UInt32 :=
  [0xAB434C2E, 0x0A000001, 0xAC100001, 0xC0A80001, 0xC6B2E501, 0x8FC30002, 0x801E4CFF]

def routes : List RouteInformation :=
  [⟨0, 0, some (.fromIPv4Numeric Host.defaultRouter.ipAddress), 0⟩,
    ⟨0x0A000000, 8, none, 1⟩,
    ⟨0xAC100000, 16, none, 2⟩,
    ⟨0xC0A80000, 24, none, 3⟩,
    ⟨0xC6B2E500, 24, none, 4⟩,
    ⟨0x8FC30000, 17, some (.fromIPv4Numeric Host.hsRouter.ipAddress), 5⟩,
    ⟨0x8FC38000, 18, some (.fromIPv4Numeric Host.hsRouter.ipAddress), 5⟩,
    ⟨0x8FC3C000, 19, some (.fromIPv4Numeric Host.hsRouter.ipAddress), 5⟩,
    ⟨0x801E4CFF, 16, some (.fromIPv4Numeric 0x801E0001), 6⟩]

/-- The addresses on the links. The Ethernet addresses are random numbers in the simulator. -/
def layout : Layout Unit Host ℕ where
  link
    | .router _ n => n
    | .host k => k.link
  ethernetAddress
    | .router _ n => #v[2, 0, 0, 0, 0, n.toUInt8]
    | .host k => #v[2, 1, 0, 0, 0, k.ipAddress.toUInt8]
  ipAddress
    | .router _ n => .fromIPv4Numeric (routerAddresses.getD n 0)
    | .host k => .fromIPv4Numeric k.ipAddress
  width := fun _ => 7
  routes := fun _ => routes

theorem layout_distinct (p q : Port Unit Host) (hlink : layout.link p = layout.link q)
    (heth : layout.ethernetAddress p = layout.ethernetAddress q) : p = q := by
  have hsecond := congrArg (·[1]) heth
  rcases p with ⟨i, n⟩ | k <;> rcases q with ⟨j, m⟩ | k'
  · exact congrArg (Port.router i) hlink
  · exact absurd hsecond (show ¬ (0 : Byte) = 1 by decide)
  · exact absurd hsecond (show ¬ (1 : Byte) = 0 by decide)
  · clear hsecond
    revert hlink heth
    cases k <;> cases k' <;> decide

theorem layout_unicast (p : Port Unit Host) : layout.ethernetAddress p ≠ ethernetBroadcast := by
  intro heth
  have hfirst := congrArg (·[0]) heth
  cases p with
  | router i n => exact absurd hfirst (show ¬ (2 : Byte) = 255 by decide)
  | host k => exact absurd hfirst (show ¬ (2 : Byte) = 255 by decide)

theorem layout_numbered (p : Port Unit Host) : ∃ ip, (layout.ipAddress p).ipv4 = some ip := by
  cases p with
  | router i n => exact ⟨_, rfl⟩
  | host k => exact ⟨_, rfl⟩

theorem layout_valid : (layout.router ()).Valid := by
  refine ⟨by decide, by decide, fun el hel x hx => ?_, fun el hel hop hhop => ?_⟩
  · obtain ⟨n, -, rfl⟩ := List.mem_map.mp (List.mem_of_getElem? hx)
    exact ⟨_, rfl⟩
  have hall : ∀ el ∈ routes, el.nextHop.all (·.ipv4.isSome) = true := by decide
  have hsome := hall el hel
  rw [hhop] at hsome
  exact Option.isSome_iff_exists.mp hsome

def network : Topology Unit Host ℕ where
  toLayout := layout
  distinct := layout_distinct
  unicast := layout_unicast
  numbered := layout_numbered
  valid := fun _ => layout_valid

theorem layout_ipAddress (p q : Port Unit Host) (hlink : layout.link p = layout.link q)
    (hip : (layout.ipAddress p).ipv4 = (layout.ipAddress q).ipv4) : p = q := by
  have hends : ∀ k : Host, routerAddresses.getD k.link 0 ≠ k.ipAddress := by
    intro k
    cases k <;> decide
  rcases p with ⟨i, n⟩ | k <;> rcases q with ⟨j, m⟩ | k'
  · exact congrArg (Port.router i) hlink
  · have hn : n = k'.link := hlink
    subst hn
    exact absurd (Option.some.inj hip) (hends k')
  · have hm : k.link = m := hlink
    subst hm
    exact absurd (Option.some.inj hip.symm) (hends k)
  · revert hlink hip
    cases k <;> cases k' <;> decide

/-- What `Host::send_to` sends from applesauce to cherrypie, through the router. -/
def hello : InternetDatagram where
  header :=
    { len := 21, ttl := 64, src := Host.applesauce.ipAddress, dst := Host.cherrypie.ipAddress }
  payload := [[7]]

theorem hello_sendable : hello.Sendable :=
  ⟨by decide, by decide, by decide, by decide, by decide⟩

def gateway : Address := .fromIPv4Numeric 0x0A000001

/-- The last frame out of the port `q` is delivered to the port `p`. -/
def passOn (q p : Port Unit Host) (net : Internetwork Unit Host) : Event Unit Host :=
  match (network.interfaceAt net q).framesOut.getLast? with
  | some f => .recvFrame p f.header f.payload.concatenate
  | none => .tick p 0

/-- Applesauce and the router, then the router and cherrypie, find each other and pass the datagram
on. -/
def script : List (Internetwork Unit Host → Event Unit Host) :=
  [fun _ => .send .applesauce hello gateway,
    passOn (.host .applesauce) (.router () 1),
    passOn (.router () 1) (.host .applesauce),
    passOn (.host .applesauce) (.router () 1),
    fun _ => .route (),
    passOn (.router () 3) (.host .cherrypie),
    passOn (.host .cherrypie) (.router () 3),
    passOn (.router () 3) (.host .cherrypie)]

def play (net : Internetwork Unit Host) :
    List (Internetwork Unit Host → Event Unit Host) → List (Event Unit Host)
  | [] => []
  | turn :: script => turn net :: play (net.step (turn net)) script

def journey : List (Event Unit Host) := play network.start script

theorem possible_passOn {q p : Port Unit Host} (hp : network.Attached p)
    (hlink : network.link q = network.link p) (net : Internetwork Unit Host) :
    network.Possible net (passOn q p net) := by
  rw [passOn]
  cases hlast : (network.interfaceAt net q).framesOut.getLast? with
  | none => exact hp
  | some f =>
    refine ⟨hp, q, hlink, f, List.mem_of_getLast? hlast, EthernetFrame.carries_iff.mpr rfl⟩

theorem play_admits {net : Internetwork Unit Host}
    {script : List (Internetwork Unit Host → Event Unit Host)}
    (h : ∀ turn ∈ script, ∀ net, network.Possible net (turn net)) :
    network.machine.Admits net (play net script) := by
  induction script generalizing net with
  | nil => trivial
  | cons turn script ih =>
    obtain ⟨hfirst, hrest⟩ := List.forall_mem_cons.mp h
    exact ⟨hfirst net, ih hrest⟩

theorem journey_admits : network.machine.Admits network.start journey := by
  refine play_admits ?_
  have hone : network.Attached (.router () 1) := show 1 < 7 by decide
  have hthree : network.Attached (.router () 3) := show 3 < 7 by decide
  simp only [script, List.forall_mem_cons]
  exact ⟨fun _ => ⟨hello_sendable, _, rfl⟩, possible_passOn hone rfl, possible_passOn trivial rfl,
    possible_passOn hone rfl, fun _ => trivial, possible_passOn trivial rfl,
    possible_passOn hthree rfl, possible_passOn trivial rfl, List.forall_mem_nil _⟩

theorem mem_play {net : Internetwork Unit Host} {e : Event Unit Host}
    {script : List (Internetwork Unit Host → Event Unit Host)} (h : e ∈ play net script) :
    ∃ turn ∈ script, ∃ net, e = turn net := by
  induction script generalizing net with
  | nil => cases h
  | cons turn script ih =>
    rcases List.mem_cons.mp h with rfl | hrest
    · exact ⟨turn, List.mem_cons_self, net, rfl⟩
    · obtain ⟨turn', hmem, net', rfl⟩ := ih hrest
      exact ⟨turn', List.mem_cons_of_mem _ hmem, net', rfl⟩

theorem passOn_ne_send {q p : Port Unit Host} {net : Internetwork Unit Host} {k : Host}
    {d : InternetDatagram} {hop : Address} : .send k d hop ≠ passOn q p net := by
  rw [passOn]
  split <;> nofun

theorem sent_journey {k : Host} {d : InternetDatagram} {hop : Address}
    (h : .send k d hop ∈ journey) : k = .applesauce ∧ d = hello ∧ hop = gateway := by
  obtain ⟨turn, hturn, net, heq⟩ := mem_play h
  simp only [script, List.mem_cons, List.not_mem_nil, or_false] at hturn
  rcases hturn with rfl | rfl | rfl | rfl | rfl | rfl | rfl | rfl
  · cases heq
    exact ⟨rfl, rfl, rfl⟩
  · exact absurd heq passOn_ne_send
  · exact absurd heq passOn_ne_send
  · exact absurd heq passOn_ne_send
  · cases heq
  · exact absurd heq passOn_ne_send
  · exact absurd heq passOn_ne_send
  · exact absurd heq passOn_ne_send

theorem journey_nonempty :
    ((network.machine.run network.start journey).hosts .cherrypie).datagramsOut ≠ [] := by
  have hreceived : ((network.machine.run network.start journey).hosts
      .cherrypie).datagramsOut.isEmpty = false := by decide +kernel
  intro hnil
  rw [hnil] at hreceived
  cases hreceived

end NetworkSimulator

namespace Topology
open NetworkSimulator

variable {ρ κ ℓ : Type} [DecidableEq ρ] [DecidableEq κ] [DecidableEq ℓ]

/-- A host receives only what a host has sent. It has come from router to router as the routes say,
each counted as a hop, and arrives as it was sent. -/
theorem received_follows_routes (T : Topology ρ κ ℓ) {events : List (Event ρ κ)}
    (hrun : T.machine.Admits T.start events) {k : κ} {dgram : InternetDatagram}
    (hreceived : dgram ∈ ((T.machine.run T.start events).hosts k).datagramsOut) :
    ∃ k₀ d₀ h₀ hops, .send k₀ d₀ h₀ ∈ events ∧ T.Arrives k₀ d₀ h₀ hops (.host k) dgram ∧
      Aged d₀ dgram hops := by
  obtain ⟨-, k₀, d₀, h₀, hops, hsent, harrives⟩ :=
    (follows_run hrun).queued (.host k) dgram hreceived
  refine ⟨k₀, d₀, h₀, hops, hsent, harrives, ?_⟩
  obtain ⟨p, d, hop, hdeparts, -, -, rfl⟩ := harrives
  exact hdeparts.aged.arrival

theorem received_follows_routes_hello :
    ∃ dgram ∈ ((network.machine.run network.start journey).hosts .cherrypie).datagramsOut,
      ∃ k₀ d₀ h₀ hops, .send k₀ d₀ h₀ ∈ journey ∧
        network.Arrives k₀ d₀ h₀ hops (.host .cherrypie) dgram ∧ Aged d₀ dgram hops := by
  obtain ⟨dgram, hdgram⟩ := List.exists_mem_of_ne_nil _ journey_nonempty
  exact ⟨dgram, hdgram, received_follows_routes network journey_admits hdgram⟩

/-- A host that is nobody's gateway receives only what is addressed to it. -/
theorem received_by_addressee (T : Topology ρ κ ℓ) {events : List (Event ρ κ)}
    (hrun : T.machine.Admits T.start events) {k : κ}
    (hroutes : ∀ i, ∀ el ∈ T.routes i, ∀ hop, el.nextHop = some hop →
      hop.ipv4 ≠ (T.ipAddress (.host k)).ipv4)
    (hsends : ∀ k' d hop, .send k' d hop ∈ events →
      hop.ipv4 = some d.header.dst ∨ hop.ipv4 ≠ (T.ipAddress (.host k)).ipv4)
    {dgram : InternetDatagram}
    (hreceived : dgram ∈ ((T.machine.run T.start events).hosts k).datagramsOut) :
    (T.ipAddress (.host k)).ipv4 = some dgram.header.dst := by
  obtain ⟨-, k₀, d₀, h₀, hops, hsent, p, d, hop, hdeparts, -, hip, rfl⟩ :=
    (follows_run hrun).queued (.host k) dgram hreceived
  rw [IPv4Datagram.arrival_dst]
  cases hdeparts with
  | sent =>
    rcases hsends _ _ _ hsent with hdst | hother
    · exact hip.symm.trans hdst
    · exact absurd hip hother
  | @relayed hops p d hop hop' i n m _ _ _ _ hdecision =>
    obtain ⟨el, hel, rfl⟩ := Router.exists_route hdecision
    rw [Router.aged_dst]
    cases hhop : el.nextHop with
    | none =>
      rw [hhop, Option.getD_none] at hip
      exact hip.symm
    | some gateway =>
      rw [hhop] at hip
      exact absurd hip (hroutes i el hel gateway hhop)

theorem received_by_addressee_hello :
    ∃ dgram ∈ ((network.machine.run network.start journey).hosts .cherrypie).datagramsOut,
      dgram.header.dst = Host.cherrypie.ipAddress := by
  obtain ⟨dgram, hdgram⟩ := List.exists_mem_of_ne_nil _ journey_nonempty
  refine ⟨dgram, hdgram, Option.some.inj
    (received_by_addressee network journey_admits ?_ ?_ hdgram).symm⟩
  · have hall : ∀ el ∈ routes, ∀ hop ∈ el.nextHop, hop.ipv4 ≠ some Host.cherrypie.ipAddress := by
      decide
    exact fun _ el hel hop hhop => hall el hel hop hhop
  · rintro k d hop hsent
    obtain ⟨-, -, rfl⟩ := sent_journey hsent
    exact Or.inr (by decide)

/-- No call throws on a network where everybody sends well. -/
theorem calls_return (T : Topology ρ κ ℓ) {events : List (Event ρ κ)}
    (hrun : T.machine.Admits T.start events) {e : Event ρ κ}
    (hpossible : T.Possible (T.machine.run T.start events) e) :
    ∃ net, (T.machine.run T.start events).call e = .ok net :=
  ⟨_, ((follows_run hrun).performs hpossible).call_eq⟩

theorem calls_return_hello :
    ∃ net, (network.machine.run network.start journey).call (.route ()) = .ok net :=
  calls_return network journey_admits trivial

/-- Wherever the routes lead a datagram, the links and the routers can still bring it there. -/
theorem routes_can_be_followed (T : Topology ρ κ ℓ)
    (hip : ∀ p q, T.link p = T.link q → (T.ipAddress p).ipv4 = (T.ipAddress q).ipv4 → p = q)
    {events : List (Event ρ κ)} (hrun : T.machine.Admits T.start events) {k₀ : κ}
    {d₀ : InternetDatagram} {h₀ : Address} (hsent : .send k₀ d₀ h₀ ∈ events) {hops : ℕ} {k : κ}
    {dgram : InternetDatagram} (harrives : T.Arrives k₀ d₀ h₀ hops (.host k) dgram) :
    ∃ more, (T.machine.restrict Passes).Admits (T.machine.run T.start events) more ∧
      dgram ∈ ((T.machine.run T.start (events ++ more)).hosts k).datagramsOut := by
  obtain ⟨p, d, hop, hdeparts, hlink, hhop, rfl⟩ := harrives
  obtain ⟨there, hthere, hcall⟩ := hdeparts.passage hip hrun hsent
  obtain ⟨later, hlater, hqueue⟩ := exists_arrival hip (hthere.admits hrun) hdeparts.attached
    (q := .host k) trivial hcall hlink hhop
  obtain ⟨more, hmore, rfl⟩ := hthere.trans hlater
  exact ⟨more, hmore, hqueue⟩

theorem routes_can_be_followed_hello :
    ∃ more dgram, (network.machine.restrict Passes).Admits
        (network.machine.run network.start [.send .applesauce hello gateway]) more ∧
      dgram ∈ ((network.machine.run network.start
        (.send .applesauce hello gateway :: more)).hosts .cherrypie).datagramsOut := by
  have hrun : network.machine.Admits network.start [.send .applesauce hello gateway] :=
    ⟨⟨hello_sendable, _, rfl⟩, trivial⟩
  have hdecision : (network.router ()).decision hello.arrival =
      some (3, .fromIPv4Numeric Host.cherrypie.ipAddress) := by decide +kernel
  have hdeparts : network.Departs .applesauce hello gateway 1 (.router () 3)
      (Router.aged hello.arrival) (.fromIPv4Numeric Host.cherrypie.ipAddress) :=
    .relayed (n := 1) .sent (show 1 < 7 by decide) rfl rfl hdecision
  obtain ⟨more, hmore, hreceived⟩ := routes_can_be_followed network layout_ipAddress hrun
    (List.mem_singleton_self _) (k := .cherrypie) ⟨_, _, _, hdeparts, rfl, rfl, rfl⟩
  exact ⟨more, _, hmore, hreceived⟩

end Topology
end Sponge
