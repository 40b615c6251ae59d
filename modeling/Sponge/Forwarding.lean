import Sponge.DatagramOrder
import Sponge.LongestPrefix

/-!
# Forwarding

One call of `route` goes through the queues of the arrival interfaces, one after the other. Each
datagram that may travel on and has a route becomes one call on an interface, all others are
dropped. What the interfaces make of these calls, at once or when an address is resolved, follows
from the order in which they send what they are given.
-/
namespace Sponge.Router
open NetworkInterface (calls emits sentFor givenFor)

/-- All queued datagrams, in the order in which `route` comes to them. -/
def queued (r : Router) : List InternetDatagram :=
  (List.range r.interfaces.length).flatMap r.queue

/-- What becomes of a queued datagram: nothing, or a call on an interface. -/
def order (r : Router) (dgram : InternetDatagram) : Option (ℕ × NetworkInterface.Op) :=
  (r.decision dgram).map fun chosen => (chosen.1, .sendDatagram (aged dgram) chosen.2)

/-- Those of the calls that are made on the interface `k`. -/
def ordersFor (k : ℕ) (orders : List (ℕ × NetworkInterface.Op)) : List NetworkInterface.Op :=
  (orders.filter (·.1 = k)).map (·.2)

/-- The calls `route` makes on the interface `k`. -/
def handed (r : Router) (k : ℕ) : List NetworkInterface.Op :=
  ordersFor k (r.queued.filterMap r.order)

/-- The queued datagrams that leave through the interface `k` for the next hop `ip`. -/
def relayed (r : Router) (k : ℕ) (ip : UInt32) : List InternetDatagram :=
  r.queued.filter fun dgram => (r.decision dgram).any fun chosen =>
    chosen.1 = k ∧ chosen.2.ipv4 = some ip

/-- The payload decodes to the datagram, with one hop less to live and a checksum that verifies. -/
def Carries (dgram : InternetDatagram) (payload : BufferList) : Prop :=
  ∀ (d₀ : InternetDatagram) (h₀ : IPv4Header), ∃ cksum,
    d₀.parse payload.concatenate = (.noError,
      ⟨{ dgram.header with ttl := dgram.header.ttl - 1, cksum }, [dgram.payload.concatenate]⟩) ∧
    (h₀.parse.run ⟨payload.concatenate, .noError⟩).1 =
      (.noError, { dgram.header with ttl := dgram.header.ttl - 1, cksum })

/-- What a call of `route` means for the interface `k`, which it takes from `x` to `x'`. Whatever
is called later, the payloads of all its IPv4 frames from the call on are those that had waited,
those of the relayed datagrams and those given later, in this order for each next hop. An interface
without an IPv4 address of its own might lose what it is given later. -/
structure Relays (r : Router) (k : ℕ) (x x' : NetworkInterface) : Prop where
  run_eq : x' = calls.run x (r.handed k)
  in_order : x.ipAddress.ipv4 ≠ none → ∀ ip, ∃ payloads,
    List.Forall₂ Carries (r.relayed k ip) payloads ∧ ∀ later,
      calls.collect (sentFor ip) x (r.handed k ++ later) ++
          ((calls.run x' later).notSentDgrams ip).getD [] =
        (x.notSentDgrams ip).getD [] ++ (payloads ++ later.flatMap (givenFor ip))
  accounted : ∀ later, ∀ frame ∈ calls.collect emits x (r.handed k ++ later),
    frame.header.type = EthernetHeader.typeIPv4 →
      ∃ ip, frame.payload ∈ calls.collect (sentFor ip) x (r.handed k ++ later)

/-- `r'` is `r` after these calls, up to the queues. -/
structure Executes (r : Router) (orders : List (ℕ × NetworkInterface.Op)) (r' : Router) : Prop where
  alike : Alike r r'
  interface_eq : ∀ k x, r.interfaces[k]? = some x → ∃ x', r'.interfaces[k]? = some x' ∧
    x'.interface = calls.run x.interface (ordersFor k orders)

section Executes
variable {r r' r'' : Router} {dgram : InternetDatagram} {n : ℕ}
  {orders orders' : List (ℕ × NetworkInterface.Op)}

theorem Executes.refl (r : Router) : Executes r [] r := ⟨.refl r, fun _ x hx => ⟨x, hx, rfl⟩⟩

theorem Executes.trans (h : Executes r orders r') (h' : Executes r' orders' r'') :
    Executes r (orders ++ orders') r'' := by
  refine ⟨h.alike.trans h'.alike, fun k x hx => ?_⟩
  obtain ⟨x', hx', heq⟩ := h.interface_eq k x hx
  obtain ⟨x'', hx'', heq'⟩ := h'.interface_eq k x' hx'
  refine ⟨x'', hx'', ?_⟩
  rw [heq', heq, ordersFor, ordersFor, ordersFor, List.filter_append, List.map_append,
    calls.run_append]

theorem executes_pop (r : Router) (n : ℕ) : Executes r [] (r.pop n) := by
  refine ⟨alike_pop, fun k x hx => ?_⟩
  by_cases hk : k = n
  · subst hk
    refine ⟨{ x with datagramsOut := x.datagramsOut.tail }, ?_, rfl⟩
    rw [pop, List.getElem?_modify_eq, hx]
    rfl
  · refine ⟨x, ?_, rfl⟩
    rw [pop, List.getElem?_modify_ne _ _ (Ne.symm hk), hx]

/-- Only the routes matter for what is done with a datagram. -/
theorem Alike.order_eq (h : Alike r r') : r'.order = r.order := by
  funext dgram
  rw [order, order, decision, decision, search, search, h.routingTable_eq]

theorem sendable_aged (h : IPv4Datagram.Sendable dgram) : IPv4Datagram.Sendable (aged dgram) :=
  ⟨h.ver_eq, h.hlen_ge, h.hlen_le, h.offset_lt, h.len_eq⟩

theorem serialize_aged (h : IPv4Datagram.Sendable dgram) :
    ∃ payload, (aged dgram).serialize = .ok payload ∧ Carries dgram payload :=
  have haged := sendable_aged h
  ⟨_, IPv4Datagram.serialize_eq haged.ver_eq haged.hlen_ge haged.size_eq,
    fun d₀ h₀ => ⟨_, haged.parse_wire d₀, haged.parse_header h₀⟩⟩

theorem Valid.decision_usable (hr : r.Valid) {hop : Address}
    (h : r.decision dgram = some (n, hop)) :
    (∃ x own, r.interfaces[n]? = some x ∧ x.interface.ipAddress.ipv4 = some own) ∧
      ∃ ip, hop.ipv4 = some ip := by
  rw [decision] at h
  split at h
  · cases h
  · simp only at h
    split at h
    · cases h
    · next hmatched =>
      cases h
      exact hr.search_usable (by simpa using hmatched)

theorem executes_routeOneDatagram (hr : r.Valid) (h : IPv4Datagram.Sendable dgram) :
    ∃ r', r.routeOneDatagram dgram = .ok r' ∧ Executes r (r.order dgram).toList r' ∧
      r'.queue = r.queue := by
  rw [routeOneDatagram_eq, order]
  cases hdecision : r.decision dgram with
  | none => exact ⟨r, rfl, .refl r, rfl⟩
  | some chosen =>
    obtain ⟨n, hop⟩ := chosen
    obtain ⟨⟨x, own, hx, hown⟩, ip, hip⟩ := hr.decision_usable hdecision
    obtain ⟨payload, hpayload, -⟩ := serialize_aged h
    obtain ⟨t, ht⟩ := x.interface.sendDatagram_of_serializes hown hip hpayload
    have halike := alike_setInterface (y := { x with interface := t }) hx
      (NetworkInterface.ipAddress_of_sendDatagram ht)
    refine ⟨r.setInterface n { x with interface := t }, ?_, ⟨halike, ?_⟩, ?_⟩
    · simp [handOver, interface_eq hx, AsyncNetworkInterface.sendDatagram, ht, bind, Except.bind]
    · intro k y hy
      by_cases hk : k = n
      · subst hk
        obtain ⟨hlt, -⟩ := List.getElem?_eq_some_iff.mp hx
        rw [hx] at hy
        cases hy
        refine ⟨_, List.getElem?_set_self hlt, ?_⟩
        simp [ordersFor, calls, NetworkInterface.step_sendDatagram ht]
      · refine ⟨y, (List.getElem?_set_ne (Ne.symm hk)).trans hy, ?_⟩
        simp [ordersFor, Ne.symm hk]
    · rw [queue_setInterface hx, ← queue_eq hx, Function.update_eq_self]

end Executes

section Route
variable {r : Router}

theorem executes_drain (n rounds : ℕ) (hr : r.Valid)
    (hqueue : ∀ dgram ∈ r.queue n, IPv4Datagram.Sendable dgram)
    (hrounds : (r.queue n).length = rounds) :
    ∃ r', drain n rounds r = .ok r' ∧ Executes r ((r.queue n).filterMap r.order) r' ∧
      r'.queue = Function.update r.queue n [] := by
  induction rounds generalizing r with
  | zero =>
    have hnil := List.length_eq_zero_iff.mp hrounds
    rw [hnil]
    refine ⟨r, rfl, .refl r, ?_⟩
    rw [← hnil, Function.update_eq_self]
  | succ rounds ih =>
    obtain ⟨dgram, rest, hcons⟩ := List.exists_cons_of_length_eq_add_one hrounds
    rw [hcons] at hqueue hrounds
    obtain ⟨hfirst, hrest⟩ := List.forall_mem_cons.mp hqueue
    obtain ⟨r₁, hone, hexecutes, hkept⟩ := executes_routeOneDatagram hr hfirst
    have hpopped : (r₁.pop n).queue = Function.update r.queue n rest := by
      rw [queue_pop, hkept, hcons, List.tail_cons]
    have hfront : Executes r (r.order dgram).toList (r₁.pop n) := by
      have htrans := hexecutes.trans (r₁.executes_pop n)
      rwa [List.append_nil] at htrans
    have hself : (r₁.pop n).queue n = rest := by rw [hpopped, Function.update_self]
    obtain ⟨r', hdrain, hback, hempty⟩ := ih (hfront.alike.valid hr) (by rwa [hself])
      (by rw [hself]; exact Nat.succ.inj hrounds)
    refine ⟨r', ?_, ?_, ?_⟩
    · simp only [drain, hcons, hone]
      exact hdrain
    · rw [hself, hfront.alike.order_eq] at hback
      rw [hcons, List.filterMap_cons]
      have hall := hfront.trans hback
      cases horder : r.order dgram <;> simpa [horder] using hall
    · rw [hempty, hpopped, Function.update_idem]

theorem executes_range (hr : r.Valid)
    (hqueue : ∀ n, ∀ dgram ∈ r.queue n, IPv4Datagram.Sendable dgram) (k : ℕ) :
    ∃ r', (List.range k).foldlM (fun r n => drain n (r.queue n).length r) r = .ok r' ∧
      Executes r (((List.range k).flatMap r.queue).filterMap r.order) r' ∧
      ∀ n, r'.queue n = if n < k then [] else r.queue n := by
  induction k with
  | zero => exact ⟨r, rfl, .refl r, fun n => rfl⟩
  | succ k ih =>
    obtain ⟨r₁, hfold, hexecutes, hqueues⟩ := ih
    have hself : r₁.queue k = r.queue k := by rw [hqueues, if_neg (Nat.lt_irrefl k)]
    obtain ⟨r', hdrain, hback, hempty⟩ := executes_drain k _ (hexecutes.alike.valid hr)
      (by rw [hself]; exact hqueue k) rfl
    refine ⟨r', ?_, ?_, fun n => ?_⟩
    · rw [List.range_succ, List.foldlM_append, hfold]
      simp only [List.foldlM_cons, List.foldlM_nil, bind_pure]
      exact hdrain
    · rw [hself, hexecutes.alike.order_eq] at hback
      rw [List.range_succ, List.flatMap_append, List.flatMap_singleton, List.filterMap_append]
      exact hexecutes.trans hback
    · rw [hempty]
      by_cases hn : n = k
      · subst hn
        simp
      · rw [Function.update_of_ne hn, hqueues]
        simp only [show n < k + 1 ↔ n < k by omega]

theorem executes_route (hr : r.Valid)
    (hqueue : ∀ n, ∀ dgram ∈ r.queue n, IPv4Datagram.Sendable dgram) :
    ∃ r', r.route = .ok r' ∧ Executes r (r.queued.filterMap r.order) r' ∧ ∀ n, r'.queue n = [] := by
  obtain ⟨r', hroute, hexecutes, hqueues⟩ := executes_range hr hqueue r.interfaces.length
  refine ⟨r', hroute, hexecutes, fun n => ?_⟩
  rw [hqueues]
  split
  · rfl
  · next hn => rw [queue, List.getElem?_eq_none (Nat.le_of_not_lt hn)]; rfl

/-- What the interface `k` is given for a next hop are the relayed datagrams, serialized. -/
theorem givenFor_ordersFor (r : Router) (k : ℕ) (ip : UInt32) (dgrams : List InternetDatagram) :
    (ordersFor k (dgrams.filterMap r.order)).flatMap (givenFor ip) =
      (dgrams.filter fun dgram => (r.decision dgram).any fun chosen =>
        chosen.1 = k ∧ chosen.2.ipv4 = some ip).flatMap
          fun dgram => (aged dgram).serialize.toOption.toList := by
  induction dgrams with
  | nil => rfl
  | cons dgram dgrams ih =>
    cases hdecision : r.decision dgram with
    | none => simpa [order, hdecision] using ih
    | some chosen =>
      have horder : r.order dgram = some (chosen.1, .sendDatagram (aged dgram) chosen.2) := by
        rw [order, hdecision, Option.map_some]
      rw [ordersFor] at ih
      by_cases hk : chosen.1 = k
      · by_cases hip : chosen.2.ipv4 = some ip
        · simp [horder, hdecision, ordersFor, givenFor, hk, hip, ih]
        · simp [horder, hdecision, ordersFor, givenFor, hk, hip, ih]
      · simp [horder, hdecision, ordersFor, hk, ih]

theorem carries_serialized {dgrams : List InternetDatagram}
    (h : ∀ dgram ∈ dgrams, IPv4Datagram.Sendable dgram) :
    List.Forall₂ Carries dgrams
      (dgrams.flatMap fun dgram => (aged dgram).serialize.toOption.toList) := by
  induction dgrams with
  | nil => exact .nil
  | cons dgram dgrams ih =>
    obtain ⟨hfirst, hrest⟩ := List.forall_mem_cons.mp h
    obtain ⟨payload, hpayload, hcarries⟩ := serialize_aged hfirst
    rw [List.flatMap_cons, hpayload]
    exact .cons hcarries (ih hrest)

theorem relays_of_run (hqueue : ∀ n, ∀ dgram ∈ r.queue n, IPv4Datagram.Sendable dgram)
    {k : ℕ} {x x' : NetworkInterface} (hx : x.Reached) (hrun : x' = calls.run x (r.handed k)) :
    r.Relays k x x' := by
  refine ⟨hrun, fun hnumbered ip => ⟨(r.handed k).flatMap (givenFor ip), ?_, fun later => ?_⟩,
    fun later frame => NetworkInterface.mem_sentFor⟩
  · rw [handed, givenFor_ordersFor]
    refine carries_serialized fun dgram hdgram => ?_
    obtain ⟨n, -, hmem⟩ := List.mem_flatMap.mp (List.mem_filter.mp hdgram).1
    exact hqueue n dgram hmem
  · obtain ⟨own, hown⟩ := Option.ne_none_iff_exists'.mp hnumbered
    rw [hrun, ← calls.run_append, hx.sent_in_order hown ip, List.flatMap_append]

end Route

/-- With usable routes, `route` empties all queues, and each queued datagram that may travel on is
relayed once. -/
theorem route_conserves (r : Router) (hr : r.Valid)
    (hreached : ∀ x ∈ r.interfaces, x.interface.Reached)
    (hqueue : ∀ n, ∀ dgram ∈ r.queue n, IPv4Datagram.Sendable dgram) :
    ∃ r', r.route = .ok r' ∧ Alike r r' ∧ (∀ n, r'.queue n = []) ∧
      ∀ k x, r.interfaces[k]? = some x →
        ∃ x', r'.interfaces[k]? = some x' ∧ r.Relays k x.interface x'.interface := by
  obtain ⟨r', hroute, hexecutes, hempty⟩ := executes_route hr hqueue
  refine ⟨r', hroute, hexecutes.alike, hempty, fun k x hx => ?_⟩
  obtain ⟨x', hx', hrun⟩ := hexecutes.interface_eq k x hx
  exact ⟨x', hx', relays_of_run hqueue (hreached x (List.mem_of_getElem? hx)) hrun⟩

section Small

/-- The gateway with one queued datagram and a next hop of its own. -/
def queueing (nextHop : Address) : Router where
  interfaces := gateway.interfaces.map fun x =>
    { x with datagramsOut := [{ header := { len := 20, ttl := 64 } }] }
  routingTable := [⟨0, 0, some nextHop, 0⟩]

theorem reached_queueing (nextHop : Address) :
    ∀ x ∈ (queueing nextHop).interfaces, x.interface.Reached :=
  List.forall_mem_singleton.mpr ⟨_, _, [], rfl⟩

theorem sendable_queueing (nextHop : Address) :
    ∀ n, ∀ dgram ∈ (queueing nextHop).queue n, IPv4Datagram.Sendable dgram
  | 0 => List.forall_mem_singleton.mpr ⟨by decide, by decide, by decide, by decide, by decide⟩
  | _ + 1 => List.forall_mem_nil _

theorem route_conserves_queueing :
    (∃ r', (queueing ⟨some 9, 0⟩).route = .ok r' ∧ ∀ n, r'.queue n = []) ∧
      ((queueing ⟨some 9, 0⟩).relayed 0 9).length = 1 := by
  have hvalid : (queueing ⟨some 9, 0⟩).Valid := by
    refine ⟨by decide, by decide, List.forall_mem_singleton.mpr fun x hx => ?_,
      List.forall_mem_singleton.mpr fun hop hhop => ?_⟩
    · cases hx
      exact ⟨1, rfl⟩
    · cases hhop
      exact ⟨9, rfl⟩
  obtain ⟨r', hroute, -, hempty, -⟩ :=
    route_conserves _ hvalid (reached_queueing _) (sendable_queueing _)
  exact ⟨⟨r', hroute, hempty⟩, by decide +kernel⟩

/-- The next hop of the route is no IPv4 address. -/
theorem route_throws_next_hop :
    let r := queueing ⟨none, 0⟩
    (∀ el ∈ r.routingTable, el.prefixLength ≤ 32 ∧ el.interfaceNum < r.interfaces.length) ∧
      (∀ x ∈ r.interfaces, x.interface.Reached) ∧
      (∀ n, ∀ dgram ∈ r.queue n, IPv4Datagram.Sendable dgram) ∧
      ∃ e, r.route = .error e :=
  ⟨by decide, reached_queueing _, sendable_queueing _, exists_error (by decide +kernel)⟩

end Small
end Sponge.Router
