import Sponge.LocalNetwork

/-!
# Datagrams get through a link

On a local network a datagram is read just as it was given, at the owner of its next hop. And it can
always be: while it waits for an address, the request for it is on the link, and the owner's answer
sets it free.
-/
namespace Sponge
open EthernetHeader

/-- The datagram as it is read from the link, with the checksum filled in and the payload in one
piece. -/
def IPv4Datagram.arrival (d : IPv4Datagram) : IPv4Datagram :=
  ⟨{ d.header with cksum := d.header.cksumFor }, [d.payload.concatenate]⟩

theorem IPv4Datagram.arrival_dst (d : IPv4Datagram) : d.arrival.header.dst = d.header.dst := rfl

theorem IPv4Datagram.Sendable.arrival {d : IPv4Datagram} (h : d.Sendable) : d.arrival.Sendable := by
  refine ⟨h.ver_eq, h.hlen_ge, h.hlen_le, h.offset_lt, ?_⟩
  have hsize : d.arrival.payload.size = d.payload.size := by
    simp [IPv4Datagram.arrival, BufferList.size, BufferList.concatenate]
  rw [hsize]
  exact h.len_eq

theorem IPv4Datagram.Sendable.parse_serialized {d : IPv4Datagram} (h : d.Sendable)
    {payload : BufferList} (hpayload : d.serialize = .ok payload) :
    IPv4Datagram.parse {} payload.concatenate = (.noError, d.arrival) := by
  rw [IPv4Datagram.serialize_eq h.ver_eq h.hlen_ge h.size_eq] at hpayload
  rw [← Except.ok.inj hpayload]
  exact h.parse_wire {}

/-- The frame as it is read from the link. -/
def EthernetFrame.arrival (f : EthernetFrame) : EthernetFrame :=
  { f with payload := [f.payload.concatenate] }

theorem EthernetFrame.carries_arrival (f : EthernetFrame) : f.Carries f.arrival :=
  EthernetFrame.carries_iff.mpr rfl

namespace NetworkInterface

/-- An interface takes an ARP message from a frame for it. -/
theorem heard_arpFrame (s t : NetworkInterface) {dst : EthernetAddress} (message : ARPMessage)
    (hsupported : message.supported = true)
    (haccepts : dst = ethernetBroadcast ∨ dst = t.ethernetAddress) :
    t.heard (s.arpFrame dst message).arrival = some message := by
  have hparse := ARPMessage.parse_bytes {} hsupported
  rw [heard, if_pos ⟨haccepts, rfl⟩]
  simp [EthernetFrame.arrival, arpFrame, BufferList.toBuffer, BufferList.concatenate, hparse]

theorem recvFrame_ipv4Frame (s t : NetworkInterface) {d : InternetDatagram} (hd : d.Sendable)
    {payload : BufferList} (hpayload : d.serialize = .ok payload) :
    t.recvFrame (s.ipv4Frame t.ethernetAddress payload).arrival = .ok (some d.arrival, t) :=
  Delivers.recvFrame_eq t
    ⟨Or.inr rfl, rfl, payload.concatenate, rfl, hd.parse_serialized hpayload⟩

/-- The owner of an address answers a request for it. -/
theorem answers_request (s : NetworkInterface) {t : NetworkInterface} {own : UInt32}
    (hown : t.ipAddress.ipv4 = some own) (asker : UInt32) :
    t.arpFrame s.ethernetAddress (t.arpReply own asker s.ethernetAddress) ∈
      (t.step (.recvFrame (s.arpFrame ethernetBroadcast (s.arpRequest asker own)).arrival)
        ).framesOut := by
  have hheard := heard_arpFrame s t (s.arpRequest asker own) rfl (Or.inl rfl)
  rw [step_of_heard hheard (not_baffles hown _)]
  refine List.mem_append_right _ (List.mem_append_left _ ?_)
  rw [replies, if_pos ⟨rfl, hown⟩]
  exact List.mem_singleton_self _

/-- The answer frees what waits for the address. -/
theorem freed_by_reply (s t : NetworkInterface) (own target : UInt32) :
    (s.step (.recvFrame (t.arpFrame s.ethernetAddress
      (t.arpReply own target s.ethernetAddress)).arrival)).notSentDgrams own = none := by
  have hheard := heard_arpFrame t s (t.arpReply own target s.ethernetAddress) rfl (Or.inr rfl)
  have hbaffles : ¬ s.Baffles (t.arpReply own target s.ethernetAddress) := by
    rintro ⟨hrequest, -⟩
    cases hrequest
  rw [step_of_heard hheard hbaffles]
  exact Function.update_self ..

section Accounted
variable {ι : Type*} {eth : ι → EthernetAddress} {ip : ι → UInt32}
  {given given' : UInt32 → BufferList → Prop} {s : NetworkInterface}

/-- Whatever the interface was given for an address waits for it or has gone out to an owner of it,
and where something waits the request for the address has gone out. -/
structure Accounted (eth : ι → EthernetAddress) (ip : ι → UInt32)
    (given : UInt32 → BufferList → Prop) (s : NetworkInterface) : Prop where
  kept : ∀ addr payload, given addr payload → payload ∈ (s.notSentDgrams addr).getD [] ∨
    ∃ k, ip k = addr ∧ s.ipv4Frame (eth k) payload ∈ s.framesOut
  asked : ∀ addr, s.notSentDgrams addr ≠ none ∨ s.notMappedIPAddress addr ≠ none →
    ∃ own, s.ipAddress.ipv4 = some own ∧
      s.arpFrame ethernetBroadcast (s.arpRequest own addr) ∈ s.framesOut

section Send
variable {dgram : InternetDatagram} {nextHop : Address} {bytes : BufferList} {target : UInt32}

/-- To an address that is known the datagram goes out. -/
theorem Accounted.send_mapped (h : Accounted eth ip given s)
    (hbytes : dgram.serialize = .ok bytes) {j : ι} {since : ℕ}
    (hhop : nextHop.ipv4 = some (ip j)) (hmapped : s.ip2eth (ip j) = some (eth j, since))
    (hgiven : ∀ addr payload, given' addr payload → given addr payload ∨
      addr = ip j ∧ payload = bytes) :
    Accounted eth ip given' (s.step (.sendDatagram dgram nextHop)) := by
  rw [step_sendDatagram (s.sendDatagram_of_mapped hhop hbytes hmapped)]
  refine ⟨fun addr payload hnew => ?_, fun addr hwaits =>
    (h.asked addr hwaits).imp fun _ => And.imp_right (List.mem_append_left _)⟩
  rcases hgiven addr payload hnew with hold | ⟨rfl, rfl⟩
  · refine (h.kept addr payload hold).imp id ?_
    rintro ⟨k, hk, hmem⟩
    exact ⟨k, hk, List.mem_append_left _ hmem⟩
  · exact Or.inr ⟨j, rfl, List.mem_append_right _ (List.mem_singleton_self _)⟩

/-- For an address that is not known the datagram waits, and the request goes out now or is pending
already. -/
theorem Accounted.send_not_mapped (h : Accounted eth ip given s) {own : UInt32}
    (hown : s.ipAddress.ipv4 = some own) (hbytes : dgram.serialize = .ok bytes)
    (hhop : nextHop.ipv4 = some target)
    (hmapped : s.ip2eth target = none)
    (hgiven : ∀ addr payload, given' addr payload → given addr payload ∨
      addr = target ∧ payload = bytes) :
    Accounted eth ip given' (s.step (.sendDatagram dgram nextHop)) := by
  rw [step_sendDatagram (s.sendDatagram_of_not_mapped hhop hbytes hmapped (not_mute hown)),
    awaiting]
  refine ⟨fun addr payload hnew => ?_, fun addr hwaits => ?_⟩
  · rcases hgiven addr payload hnew with hold | ⟨rfl, rfl⟩
    · refine (h.kept addr payload hold).imp (fun hmem => ?_) ?_
      · dsimp only
        by_cases haddr : addr = target
        · subst haddr
          rw [Function.update_self]
          exact List.mem_append_left _ hmem
        · rwa [Function.update_of_ne haddr]
      · rintro ⟨k, hk, hmem⟩
        exact ⟨k, hk, List.mem_append_left _ hmem⟩
    · refine Or.inl ?_
      dsimp only
      rw [Function.update_self]
      exact List.mem_append_right _ (List.mem_singleton_self _)
  · by_cases haddr : addr = target
    · subst haddr
      cases hpending : s.notMappedIPAddress addr with
      | none =>
        refine ⟨own, hown, List.mem_append_right _ ?_⟩
        rw [requests, isDue, hpending, hown]
        exact List.mem_singleton_self _
      | some since =>
        refine (h.asked addr (Or.inr ?_)).imp fun _ => And.imp_right (List.mem_append_left _)
        rw [hpending]
        exact Option.some_ne_none since
    · refine (h.asked addr ?_).imp fun _ => And.imp_right (List.mem_append_left _)
      dsimp only at hwaits
      rwa [ite_apply, Function.update_of_ne haddr, Function.update_of_ne haddr, ite_self] at hwaits

theorem Accounted.sendDatagram (h : Accounted eth ip given s) {own : UInt32}
    (hown : s.ipAddress.ipv4 = some own) (hbytes : dgram.serialize = .ok bytes)
    (hmaps : ∀ addr entry, s.ip2eth addr = some entry → ∃ j, ip j = addr ∧ eth j = entry.1)
    (hgiven : ∀ addr payload, given' addr payload → given addr payload ∨
      nextHop.ipv4 = some addr ∧ payload = bytes) :
    Accounted eth ip given' (s.step (.sendDatagram dgram nextHop)) := by
  cases hhop : nextHop.ipv4 with
  | none =>
    rw [hhop] at hgiven
    rw [step_of_not_ipv4 hhop]
    refine ⟨fun addr payload hnew => ?_, h.asked⟩
    rcases hgiven addr payload hnew with hold | ⟨hip, -⟩
    · exact h.kept addr payload hold
    · cases hip
  | some target =>
    have hgiven' : ∀ addr payload, given' addr payload → given addr payload ∨
        addr = target ∧ payload = bytes := fun addr payload hnew =>
      (hgiven addr payload hnew).imp id fun hnow =>
        ⟨Option.some.inj (hnow.1.symm.trans hhop), hnow.2⟩
    cases hmapped : s.ip2eth target with
    | some entry =>
      obtain ⟨address, since⟩ := entry
      obtain ⟨j, rfl, rfl⟩ := hmaps target _ hmapped
      exact h.send_mapped hbytes hhop hmapped hgiven'
    | none => exact h.send_not_mapped hown hbytes hhop hmapped hgiven'

end Send

theorem Accounted.recvFrame (h : Accounted eth ip given s) {own : UInt32}
    (hown : s.ipAddress.ipv4 = some own) {frame : EthernetFrame}
    (htrue : ∀ message, s.heard frame = some message →
      ∃ j, message.senderIPAddress = ip j ∧ message.senderEthernetAddress = eth j) :
    Accounted eth ip given (s.step (.recvFrame frame)) := by
  cases hheard : s.heard frame with
  | none =>
    rw [step_of_not_heard hheard]
    exact h
  | some message =>
    obtain ⟨j, hip, heth⟩ := htrue message hheard
    rw [step_of_heard hheard (not_baffles hown message), hip, heth]
    refine ⟨fun addr payload hgiven => ?_, fun addr hwaits => ?_⟩
    · rcases h.kept addr payload hgiven with hmem | ⟨k, hk, hmem⟩
      · by_cases haddr : addr = ip j
        · subst haddr
          refine Or.inr ⟨j, rfl, List.mem_append_right _ (List.mem_append_right _ ?_)⟩
          exact List.mem_map_of_mem hmem
        · refine Or.inl ?_
          dsimp only
          rwa [Function.update_of_ne haddr]
      · exact Or.inr ⟨k, hk, List.mem_append_left _ hmem⟩
    · refine (h.asked addr ?_).imp fun _ => And.imp_right (List.mem_append_left _)
      dsimp only at hwaits
      rw [pendingAfter] at hwaits
      by_cases haddr : addr = ip j
      · subst haddr
        rw [Function.update_self] at hwaits
        have hpending := hwaits.resolve_left (absurd rfl)
        split at hpending
        · rw [Function.update_self] at hpending
          exact absurd rfl hpending
        · exact Or.inr hpending
      · rwa [ite_apply, Function.update_of_ne haddr, Function.update_of_ne haddr,
          ite_self] at hwaits

end Accounted
end NetworkInterface

namespace LocalNetwork
variable {ι : Type*} [DecidableEq ι] {eth : ι → EthernetAddress} {own : ι → Address}
  {ip : ι → UInt32} {past : List (Event ι)}

/-- The calls on one interface do not depend on the others. -/
theorem run_apply (net : LocalNetwork ι) (events : List (Event ι)) (i : ι) :
    machine.run net events i =
      NetworkInterface.calls.run (net i) ((events.filter (·.1 = i)).map (·.2)) := by
  induction events generalizing net with
  | nil => rfl
  | cons event events ih =>
    rw [machine.run_cons, ih]
    change NetworkInterface.calls.run (Function.update net event.1 _ i) _ = _
    by_cases hi : event.1 = i
    · subst hi
      rw [Function.update_self, List.filter_cons_of_pos (by simp), List.map_cons]
      rfl
    · rw [Function.update_of_ne (Ne.symm hi), List.filter_cons_of_neg (by simpa using hi)]

theorem admits_of_sendable {net : LocalNetwork ι} {events : List (Event ι)}
    (h : ∀ event ∈ events, ∃ d nextHop, event.2 = .sendDatagram d nextHop ∧ d.Sendable) :
    machine.Admits net events := by
  induction events generalizing net with
  | nil => trivial
  | cons event events ih =>
    obtain ⟨d, nextHop, hsend, hsendable⟩ := h event List.mem_cons_self
    refine ⟨?_, ih fun event hevent => h event (List.mem_cons_of_mem _ hevent)⟩
    change Possible net event
    rw [Possible, hsend]
    exact hsendable

/-- What an interface hands up was given to one on the same link, for the address of this one. -/
theorem Coherent.handsUp (h : Coherent eth own past) (heth : Function.Injective eth)
    (hunicast : ∀ i, eth i ≠ ethernetBroadcast) {i : ι} {frame : EthernetFrame}
    {dgram : InternetDatagram} {t : NetworkInterface}
    (hlink : (machine.run (start eth own) past).OnLink frame)
    (hrecv : (machine.run (start eth own) past i).recvFrame frame = .ok (some dgram, t)) :
    ∃ j d nextHop, (j, .sendDatagram d nextHop) ∈ past ∧ d.Sendable ∧
      nextHop.ipv4 = (own i).ipv4 ∧ dgram = d.arrival := by
  obtain ⟨j, f, hf, hcarries⟩ := hlink
  obtain ⟨addr, hsent⟩ := h.sent j f hf
  obtain ⟨howner, d, nextHop, hmem, hsendable, hhop, -, hdgram⟩ :=
    h.recvFrame_some heth hunicast hrecv hcarries hsent
  exact ⟨j, d, nextHop, hmem, hsendable, hhop.trans howner.symm, hdgram⟩

section Numbered
variable (hown : ∀ i, (own i).ipv4 = some (ip i))
include hown

theorem Coherent.own_eq (h : Coherent eth own past) (i : ι) :
    (machine.run (start eth own) past i).ipAddress.ipv4 = some (ip i) := by
  rw [(h.trusted i).ipAddress_eq]
  exact hown i

theorem Coherent.maps (h : Coherent eth own past) (i : ι) {addr : UInt32}
    {entry : EthernetAddress × ℕ}
    (hentry : (machine.run (start eth own) past i).ip2eth addr = some entry) :
    ∃ j, ip j = addr ∧ eth j = entry.1 := by
  obtain ⟨j, howner, heth⟩ := (h.trusted i).maps addr entry hentry
  exact ⟨j, Option.some.inj ((hown j).symm.trans howner), heth⟩

end Numbered

theorem given_of_mem (hpast : machine.Admits (start eth own) past) {i : ι}
    {d : InternetDatagram} {nextHop : Address} {addr : UInt32}
    (hmem : (i, .sendDatagram d nextHop) ∈ past)
    (haddr : nextHop.ipv4 = some addr) :
    ∃ payload, Given past i addr payload ∧ d.Sendable ∧ d.serialize = .ok payload := by
  have hsendable : d.Sendable := by
    obtain ⟨before, after, rfl⟩ := List.append_of_mem hmem
    exact ((machine.admits_append _ _ _).mp hpast).2.1
  have hbytes := IPv4Datagram.serialize_eq hsendable.ver_eq hsendable.hlen_ge hsendable.size_eq
  exact ⟨_, ⟨d, nextHop, hmem, hsendable, haddr, hbytes⟩, hsendable, hbytes⟩

omit [DecidableEq ι] in
theorem Given.of_snoc {event : Event ι} {i : ι} {addr : UInt32} {payload : BufferList}
    (h : Given (past ++ [event]) i addr payload) : Given past i addr payload ∨
      ∃ d nextHop, event = (i, .sendDatagram d nextHop) ∧ nextHop.ipv4 = some addr ∧
        d.serialize = .ok payload := by
  obtain ⟨d, nextHop, hmem, hsendable, haddr, hbytes⟩ := h
  rcases List.mem_append.mp hmem with hold | hnew
  · exact Or.inl ⟨d, nextHop, hold, hsendable, haddr, hbytes⟩
  · exact Or.inr ⟨d, nextHop, (List.mem_singleton.mp hnew).symm, haddr, hbytes⟩

section Numbered
variable (hown : ∀ i, (own i).ipv4 = some (ip i))
include hown

theorem Coherent.accounted_step (h : Coherent eth own past) {i : ι}
    {op : NetworkInterface.Op}
    (hpossible : Possible (machine.run (start eth own) past) (i, op))
    (hi : NetworkInterface.Accounted eth ip (Given past i)
      (machine.run (start eth own) past i)) :
    NetworkInterface.Accounted eth ip (Given (past ++ [(i, op)]) i)
      ((machine.run (start eth own) past i).step op) := by
  have hold : (∀ d nextHop, op ≠ .sendDatagram d nextHop) → ∀ addr payload,
      Given (past ++ [(i, op)]) i addr payload → Given past i addr payload := by
    intro hop addr payload hgiven
    rcases hgiven.of_snoc with hold | ⟨d, nextHop, heq, -⟩
    · exact hold
    · exact absurd (Prod.mk.inj heq).2 (hop d nextHop)
  cases op with
  | sendDatagram dgram nextHop =>
    have hbytes := IPv4Datagram.serialize_eq hpossible.ver_eq hpossible.hlen_ge hpossible.size_eq
    refine hi.sendDatagram (h.own_eq hown i) hbytes (fun _ _ => h.maps hown i)
      fun addr payload hgiven => ?_
    rcases hgiven.of_snoc with hold | ⟨d, hop, heq, haddr, hpayload⟩
    · exact Or.inl hold
    · cases heq
      rw [hbytes] at hpayload
      exact Or.inr ⟨haddr, (Except.ok.inj hpayload).symm⟩
  | recvFrame frame =>
    obtain ⟨j, f, hf, hcarries⟩ := hpossible
    obtain ⟨addr, hsent⟩ := h.sent j f hf
    have hnext := hi.recvFrame (h.own_eq hown i) fun message hheard =>
      have ⟨hip, heth⟩ := (h.honest j addr f hsent).heard hcarries hheard
      ⟨j, Option.some.inj (hip.symm.trans (hown j)), heth⟩
    exact ⟨fun addr payload hgiven => hnext.kept addr payload (hold nofun addr payload hgiven),
      hnext.asked⟩
  | tick ms =>
    exact ⟨fun addr payload hgiven => hi.kept addr payload (hold nofun addr payload hgiven),
      hi.asked⟩

theorem accounted_run (hpast : machine.Admits (start eth own) past) (i : ι) :
    NetworkInterface.Accounted eth ip (Given past i)
      (machine.run (start eth own) past i) := by
  refine machine.run_induction (P := fun past => NetworkInterface.Accounted eth ip (Given past i)
    (machine.run (start eth own) past i)) ?_ ?_ hpast
  · refine ⟨fun addr payload hgiven => ?_, fun _ hwaits => hwaits.elim (absurd rfl) (absurd rfl)⟩
    obtain ⟨d, nextHop, hmem, -⟩ := hgiven
    cases hmem
  · intro past event hpast hpossible ih
    obtain ⟨j, op⟩ := event
    have hrun : machine.run (start eth own) (past ++ [(j, op)]) =
        Function.update (machine.run (start eth own) past) j
          ((machine.run (start eth own) past j).step op) := machine.run_snoc _ _ _
    rw [hrun]
    by_cases hi : i = j
    · subst hi
      rw [Function.update_self]
      exact (coherent_run hpast).accounted_step hown hpossible ih
    · rw [Function.update_of_ne hi]
      refine ⟨fun addr payload hgiven => ih.kept addr payload ?_, ih.asked⟩
      rcases hgiven.of_snoc with hold | ⟨d, nextHop, heq, -⟩
      · exact hold
      · exact absurd (Prod.mk.inj heq).1.symm hi

/-- The answer to a request for its address frees what waits for it. -/
theorem exists_resolved (hpast : machine.Admits (start eth own) past) {i j : ι}
    (hasked : (machine.run (start eth own) past i).arpFrame ethernetBroadcast
      ((machine.run (start eth own) past i).arpRequest (ip i) (ip j)) ∈
        (machine.run (start eth own) past i).framesOut) :
    ∃ f f' : EthernetFrame, machine.Admits (start eth own)
        (past ++ [(j, .recvFrame f.arrival), (i, .recvFrame f'.arrival)]) ∧
      (machine.run (start eth own)
        (past ++ [(j, .recvFrame f.arrival), (i, .recvFrame f'.arrival)]) i).notSentDgrams (ip j) =
          none := by
  have htrusted := (coherent_run hpast).trusted
  have hanswer := NetworkInterface.answers_request (machine.run (start eth own) past i)
    ((coherent_run hpast).own_eq hown j) (ip i)
  generalize hfirst : (machine.run (start eth own) past i).arpFrame ethernetBroadcast
    ((machine.run (start eth own) past i).arpRequest (ip i) (ip j)) = request
    at hasked hanswer
  have hadmits : machine.Admits (start eth own)
      (past ++ [(j, .recvFrame request.arrival)]) :=
    (machine.admits_append _ _ _).mpr
      ⟨hpast, ⟨i, request, hasked, request.carries_arrival⟩, trivial⟩
  have hrun : machine.run (start eth own) (past ++ [(j, .recvFrame request.arrival)]) j =
      (machine.run (start eth own) past j).step (.recvFrame request.arrival) := by
    rw [machine.run_snoc]
    exact Function.update_self ..
  have hnow := (coherent_run hadmits).trusted i
  have hfree := NetworkInterface.freed_by_reply
    (machine.run (start eth own) (past ++ [(j, .recvFrame request.arrival)]) i)
    (machine.run (start eth own) past j) (ip j) (ip i)
  rw [hnow.ethernetAddress_eq, ← (htrusted i).ethernetAddress_eq] at hfree
  generalize (machine.run (start eth own) past j).arpFrame _ _ = reply at hanswer hfree
  refine ⟨request, reply, ?_, ?_⟩
  · rw [← List.singleton_append, ← List.append_assoc]
    refine (machine.admits_append _ _ _).mpr
      ⟨hadmits, ⟨j, reply, ?_, reply.carries_arrival⟩, trivial⟩
    rw [hrun]
    exact hanswer
  · rw [← List.singleton_append, ← List.append_assoc, machine.run_snoc]
    refine Eq.trans ?_ hfree
    exact congrFun (congrArg NetworkInterface.notSentDgrams (Function.update_self ..)) _

end Numbered

/-- A datagram that has gone out to the only owner of its next hop can be read there. -/
theorem exists_read (hpast : machine.Admits (start eth own) past) {i j : ι}
    {d : InternetDatagram} (hd : d.Sendable) {payload : BufferList}
    (hpayload : d.serialize = .ok payload)
    (hsent : (machine.run (start eth own) past i).ipv4Frame (eth j) payload ∈
      (machine.run (start eth own) past i).framesOut) :
    ∃ f : EthernetFrame,
      machine.Admits (start eth own) (past ++ [(j, .recvFrame f.arrival)]) ∧
      (machine.run (start eth own) past j).recvFrame f.arrival =
        .ok (some d.arrival, machine.run (start eth own) past j) := by
  have hread := NetworkInterface.recvFrame_ipv4Frame (machine.run (start eth own) past i)
    (machine.run (start eth own) past j) hd hpayload
  rw [((coherent_run hpast).trusted j).ethernetAddress_eq] at hread
  exact ⟨_, (machine.admits_append _ _ _).mpr
    ⟨hpast, ⟨i, _, hsent, EthernetFrame.carries_arrival _⟩, trivial⟩, hread⟩

/-- Whatever was given to an interface for the address of another one can be read there, after
further deliveries to the two. -/
theorem exists_delivery (hown : ∀ i, ∃ addr, (own i).ipv4 = some addr)
    (hpast : machine.Admits (start eth own) past) {i j : ι}
    (howner : ∀ k, (own k).ipv4 = (own j).ipv4 → k = j) {d : InternetDatagram} {nextHop : Address}
    (hgiven : (i, .sendDatagram d nextHop) ∈ past) (hhop : nextHop.ipv4 = (own j).ipv4) :
    ∃ (more : List (Event ι)) (f : EthernetFrame),
      (∀ e ∈ more, (e.1 = i ∨ e.1 = j) ∧ ∃ f : EthernetFrame, e.2 = .recvFrame f.arrival) ∧
      machine.Admits (start eth own) (past ++ more ++ [(j, .recvFrame f.arrival)]) ∧
      (machine.run (start eth own) (past ++ more) j).recvFrame f.arrival =
        .ok (some d.arrival, machine.run (start eth own) (past ++ more) j) := by
  choose ip hip using hown
  have hsingle : ∀ k, ip k = ip j → k = j := fun k hk => howner k (by rw [hip, hip, hk])
  rw [hip j] at hhop
  obtain ⟨payload, hpending, hd, hpayload⟩ := given_of_mem hpast hgiven hhop
  rcases (accounted_run hip hpast i).kept _ _ hpending with hwaits | ⟨k, hk, hsent⟩
  · obtain ⟨addr, haddr, hasked⟩ := (accounted_run hip hpast i).asked (ip j)
      (Or.inl fun hnone => by
        rw [hnone] at hwaits
        cases hwaits)
    rw [(coherent_run hpast).own_eq hip i] at haddr
    cases haddr
    obtain ⟨f, f', hadmits, hfree⟩ := exists_resolved hip hpast hasked
    have hstill : Given (past ++ [(j, .recvFrame f.arrival), (i, .recvFrame f'.arrival)]) i (ip j)
        payload := by
      rw [← List.singleton_append, ← List.append_assoc]
      exact (hpending.snoc _).snoc _
    rcases (accounted_run hip hadmits i).kept _ _ hstill with hwaits' | ⟨k, hk, hsent⟩
    · rw [hfree] at hwaits'
      cases hwaits'
    · rw [hsingle k hk] at hsent
      obtain ⟨g, hread⟩ := exists_read hadmits hd hpayload hsent
      refine ⟨_, g, ?_, hread⟩
      rintro e (_ | ⟨_, _ | ⟨_, ⟨⟩⟩⟩)
      · exact ⟨Or.inr rfl, f, rfl⟩
      · exact ⟨Or.inl rfl, f', rfl⟩
  · rw [hsingle k hk] at hsent
    obtain ⟨g, hread⟩ := exists_read hpast hd hpayload hsent
    refine ⟨[], g, fun _ => (nomatch ·), ?_⟩
    rw [List.append_nil]
    exact hread

end LocalNetwork

end Sponge
