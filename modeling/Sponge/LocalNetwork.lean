import Sponge.InterfaceCalls

/-!
# Interfaces on a local network

Any number of interfaces, each with an address and an Ethernet address of its own, share a link
that may deliver a frame to any of them, any number of times and in any order, or lose it. Nobody
else sends on it. Whatever an interface learns is then true, and a datagram reaches the owner of its
next hop only.
-/
namespace Sponge
open EthernetHeader

namespace NetworkInterface

section Trust
variable {ι : Type*} (eth : ι → EthernetAddress) (ip : ι → Address)

/-- What the interface `i` may put out for the next hop `addr`: ARP messages that tell the truth
about their sender, and datagrams given to it for `addr`, sent to the owner of `addr`. -/
inductive Honest (given : UInt32 → BufferList → Prop) (i : ι) (addr : UInt32) :
    EthernetFrame → Prop
  | arp (dst : EthernetAddress) (message : ARPMessage) (hsupported : message.supported = true)
      (hip : (ip i).ipv4 = some message.senderIPAddress)
      (heth : message.senderEthernetAddress = eth i) :
      Honest given i addr ⟨⟨dst, eth i, typeARP⟩, [message.typeBytes ++ message.addressBytes]⟩
  | ipv4 (k : ι) (payload : BufferList) (howner : (ip k).ipv4 = some addr)
      (hgiven : given addr payload) : Honest given i addr ⟨⟨eth k, eth i, typeIPv4⟩, payload⟩

/-- The interface `i` knows only what is true and holds only what was given to it. -/
structure Trusted (given : UInt32 → BufferList → Prop) (i : ι) (s : NetworkInterface) : Prop where
  ethernetAddress_eq : s.ethernetAddress = eth i
  ipAddress_eq : s.ipAddress = ip i
  maps : ∀ addr entry, s.ip2eth addr = some entry → ∃ j, (ip j).ipv4 = some addr ∧ eth j = entry.1
  holds : ∀ addr, ∀ payload ∈ (s.notSentDgrams addr).getD [], given addr payload

/-- The call keeps the trust in the interface `i` and puts out honest frames only. -/
structure Behaves (given : UInt32 → BufferList → Prop) (i : ι) (s : NetworkInterface) (op : Op) :
    Prop where
  trusted : Trusted eth ip given i (s.step op)
  honest : ∀ frame ∈ s.emits op, ∃ addr, s.hop op = some addr ∧ Honest eth ip given i addr frame

variable {eth ip} {given given' : UInt32 → BufferList → Prop} {i : ι} {s : NetworkInterface}

theorem Honest.mono {addr : UInt32} {frame : EthernetFrame} (h : Honest eth ip given i addr frame)
    (hle : ∀ addr payload, given addr payload → given' addr payload) :
    Honest eth ip given' i addr frame := by
  cases h with
  | arp dst message hsupported hip heth => exact .arp dst message hsupported hip heth
  | ipv4 k payload howner hgiven => exact .ipv4 k payload howner (hle _ _ hgiven)

theorem Trusted.mono (h : Trusted eth ip given i s)
    (hle : ∀ addr payload, given addr payload → given' addr payload) :
    Trusted eth ip given' i s :=
  ⟨h.ethernetAddress_eq, h.ipAddress_eq, h.maps,
    fun addr payload hmem => hle _ _ (h.holds addr payload hmem)⟩

theorem trusted_new (given : UInt32 → BufferList → Prop) (i : ι) :
    Trusted eth ip given i (new (eth i) (ip i)) :=
  ⟨rfl, rfl, fun _ _ => (nomatch ·), fun _ _ => (nomatch ·)⟩

theorem Behaves.of_step_eq {op : Op} (h : Trusted eth ip given i s) (hstep : s.step op = s) :
    Behaves eth ip given i s op := by
  constructor
  · rw [hstep]
    exact h
  · rw [emits_eq (show (s.step op).framesOut = s.framesOut ++ [] by rw [hstep, List.append_nil])]
    exact fun _ => (nomatch ·)

section Steps
variable (h : Trusted eth ip given i s)
include h

theorem Trusted.honest_arpFrame (addr : UInt32) (dst : EthernetAddress) {message : ARPMessage}
    (hsupported : message.supported = true)
    (hip : s.ipAddress.ipv4 = some message.senderIPAddress)
    (heth : message.senderEthernetAddress = s.ethernetAddress) :
    Honest eth ip given i addr (s.arpFrame dst message) := by
  rw [h.ipAddress_eq] at hip
  rw [h.ethernetAddress_eq] at heth
  rw [arpFrame, h.ethernetAddress_eq]
  exact .arp dst message hsupported hip heth

theorem Trusted.honest_requests (addr : UInt32) :
    ∀ frame ∈ s.requests addr, Honest eth ip given i addr frame := by
  intro frame hframe
  rw [requests] at hframe
  split at hframe
  · obtain ⟨own, hown, rfl⟩ := List.mem_map.mp hframe
    exact h.honest_arpFrame addr _ rfl (Option.mem_toList.mp hown) rfl
  · cases hframe

theorem Trusted.honest_replies (addr : UInt32) (message : ARPMessage) :
    ∀ frame ∈ s.replies message, Honest eth ip given i addr frame := by
  intro frame hframe
  rw [replies] at hframe
  split at hframe
  · next hasked =>
    rw [List.mem_singleton.mp hframe]
    exact h.honest_arpFrame addr _ rfl hasked.2 rfl
  · cases hframe

theorem Trusted.honest_ipv4Frame {j : ι} {addr : UInt32} {payload : BufferList}
    (howner : (ip j).ipv4 = some addr) (hgiven : given addr payload) :
    Honest eth ip given i addr (s.ipv4Frame (eth j) payload) := by
  rw [ipv4Frame, h.ethernetAddress_eq]
  exact .ipv4 j payload howner hgiven

theorem Trusted.sendDatagram {dgram : InternetDatagram} {nextHop : Address} {bytes : BufferList}
    (hbytes : dgram.serialize = .ok bytes)
    (hgiven : ∀ addr, nextHop.ipv4 = some addr → given addr bytes) :
    Behaves eth ip given i s (.sendDatagram dgram nextHop) := by
  cases hhop : nextHop.ipv4 with
  | none => exact .of_step_eq h (step_of_not_ipv4 hhop)
  | some addr =>
    cases hmapped : s.ip2eth addr with
    | some entry =>
      obtain ⟨j, howner, hentry⟩ := h.maps addr entry hmapped
      constructor
      · rw [step_of_mapped hhop hmapped]
        exact ⟨h.ethernetAddress_eq, h.ipAddress_eq, h.maps, h.holds⟩
      · rw [emits_of_mapped hhop hmapped, hbytes, ← hentry]
        intro frame hframe
        rw [List.mem_singleton.mp hframe]
        exact ⟨addr, hhop, h.honest_ipv4Frame howner (hgiven _ hhop)⟩
    | none =>
      by_cases hmute : s.Mute addr
      · exact .of_step_eq h (step_of_mute hhop hmapped hmute)
      constructor
      · rw [step_of_not_mapped hhop hmapped hmute, hbytes]
        refine ⟨h.ethernetAddress_eq, h.ipAddress_eq, h.maps, ?_⟩
        apply (Function.forall_update_iff s.notSentDgrams
          (p := fun addr queue => ∀ payload ∈ queue.getD [], given addr payload)).mpr
        refine ⟨fun payload hmem => ?_, fun addr' _ => h.holds addr'⟩
        rcases List.mem_append.mp hmem with hold | hnew
        · exact h.holds addr payload hold
        · rw [List.mem_singleton.mp hnew]
          exact hgiven _ hhop
      · rw [emits_of_not_mapped hhop hmapped]
        intro frame hframe
        exact ⟨addr, hhop, h.honest_requests addr frame hframe⟩

theorem Trusted.learn {message : ARPMessage} {j : ι}
    (hip : (ip j).ipv4 = some message.senderIPAddress)
    (heth : message.senderEthernetAddress = eth j) :
    Trusted eth ip given i (s.learn message) := by
  refine ⟨h.ethernetAddress_eq, h.ipAddress_eq, ?_, h.holds⟩
  apply (Function.forall_update_iff s.ip2eth (p := fun addr known =>
    ∀ entry, known = some entry → ∃ j, (ip j).ipv4 = some addr ∧ eth j = entry.1)).mpr
  refine ⟨fun entry hentry => ?_, fun addr _ => h.maps addr⟩
  cases hentry
  exact ⟨j, hip, heth.symm⟩

theorem Trusted.recvFrame {frame : EthernetFrame} (htrue : ∀ message, s.heard frame = some message →
      ∃ j, (ip j).ipv4 = some message.senderIPAddress ∧ message.senderEthernetAddress = eth j) :
    Behaves eth ip given i s (.recvFrame frame) := by
  cases hheard : s.heard frame with
  | none => exact Behaves.of_step_eq h (step_of_not_heard hheard)
  | some message =>
    obtain ⟨j, hip, heth⟩ := htrue message hheard
    have hlearned := h.learn hip heth
    by_cases hbaffles : s.Baffles message
    · refine ⟨?_, ?_⟩
      · rw [step_of_baffles hheard hbaffles]
        exact hlearned
      · rw [emits_of_baffles hheard hbaffles]
        exact fun _ => (nomatch ·)
    constructor
    · rw [step_of_heard hheard hbaffles]
      refine ⟨h.ethernetAddress_eq, h.ipAddress_eq, hlearned.maps, ?_⟩
      apply (Function.forall_update_iff s.notSentDgrams
        (p := fun addr queue => ∀ payload ∈ queue.getD [], given addr payload)).mpr
      refine ⟨fun payload hmem => ?_, fun addr _ => h.holds addr⟩
      cases hmem
    · rw [emits_of_heard hheard hbaffles, heth]
      intro frame hframe
      refine ⟨message.senderIPAddress, by rw [hop, hheard, Option.map_some], ?_⟩
      rcases List.mem_append.mp hframe with hreply | hflushed
      · exact h.honest_replies _ message frame hreply
      · obtain ⟨payload, hheld, rfl⟩ := List.mem_map.mp hflushed
        exact h.honest_ipv4Frame hip (h.holds _ payload hheld)

theorem Trusted.tick (ms : ℕ) : Behaves eth ip given i s (.tick ms) := by
  constructor
  · refine ⟨h.ethernetAddress_eq, h.ipAddress_eq, ?_, h.holds⟩
    intro addr entry hentry
    exact h.maps addr entry (Option.filter_eq_some_iff.mp hentry).1
  · rw [emits_tick]
    exact fun _ => (nomatch ·)

end Steps
end Trust

end NetworkInterface

/-- The bytes of the frame `f`, put together, are read as `frame`. -/
def EthernetFrame.Carries (f frame : EthernetFrame) : Prop :=
  ∃ f₀ : EthernetFrame, f₀.parse f.serialize.concatenate = (.noError, frame)

theorem EthernetFrame.carries_iff {f frame : EthernetFrame} :
    f.Carries frame ↔ frame = { f with payload := [f.payload.concatenate] } := by
  constructor
  · rintro ⟨f₀, hparse⟩
    rw [EthernetFrame.parse_serialize] at hparse
    exact (congrArg Prod.snd hparse).symm
  · rintro rfl
    exact ⟨f, EthernetFrame.parse_serialize f f⟩

namespace NetworkInterface

section Delivery
variable {ι : Type*} {eth : ι → EthernetAddress} {ip : ι → Address}
variable {given : UInt32 → BufferList → Prop} {i : ι} {addr : UInt32} {f frame : EthernetFrame}
variable {s : NetworkInterface}

/-- An ARP message taken from an honest frame tells the truth. -/
theorem Honest.heard (h : Honest eth ip given i addr f) (hcarries : f.Carries frame)
    {message : ARPMessage} (hheard : s.heard frame = some message) :
    (ip i).ipv4 = some message.senderIPAddress ∧ message.senderEthernetAddress = eth i := by
  rw [EthernetFrame.carries_iff.mp hcarries, NetworkInterface.heard] at hheard
  split at hheard
  · next hfor =>
    cases h with
    | arp dst m hsupported hip heth =>
      have hparse := ARPMessage.parse_bytes {} hsupported
      simp only [BufferList.toBuffer, BufferList.concatenate, List.flatten_singleton, hparse]
        at hheard
      cases hheard
      exact ⟨hip, heth⟩
    | ipv4 k payload howner hgiven => exact absurd hfor.2 (show typeIPv4 ≠ typeARP by decide)
  · cases hheard

/-- A datagram taken from an honest frame was given for this interface. -/
theorem Honest.delivers (h : Honest eth ip given i addr f) (hcarries : f.Carries frame)
    {dgram : InternetDatagram} (hdelivers : s.Delivers frame dgram) :
    ∃ k, (ip k).ipv4 = some addr ∧ given addr f.payload ∧
      (eth k = ethernetBroadcast ∨ eth k = s.ethernetAddress) ∧
      IPv4Datagram.parse {} f.payload.concatenate = (.noError, dgram) := by
  obtain ⟨haccepts, htype, buffer, hbuffer, hparse⟩ := hdelivers
  rw [EthernetFrame.carries_iff.mp hcarries] at haccepts htype hbuffer
  cases h with
  | arp dst message hsupported hip heth =>
    exact absurd htype.symm (show typeIPv4 ≠ typeARP by decide)
  | ipv4 k payload howner hgiven =>
    cases hbuffer
    exact ⟨k, howner, hgiven, haccepts, hparse⟩

end Delivery

end NetworkInterface

abbrev LocalNetwork (ι : Type*) := ι → NetworkInterface

namespace LocalNetwork
variable {ι : Type*} [DecidableEq ι]

/-- A call on one of the interfaces. -/
abbrev Event (ι : Type*) := ι × NetworkInterface.Op

def step (net : LocalNetwork ι) (event : Event ι) : LocalNetwork ι :=
  Function.update net event.1 ((net event.1).step event.2)

/-- The frame arrives from the link: its bytes were put out by one of the interfaces. -/
def OnLink (net : LocalNetwork ι) (frame : EthernetFrame) : Prop :=
  ∃ j, ∃ f ∈ (net j).framesOut, f.Carries frame

def Possible (net : LocalNetwork ι) (event : Event ι) : Prop :=
  match event.2 with
  | .sendDatagram dgram _ => dgram.Sendable
  | .recvFrame frame => net.OnLink frame
  | .tick _ => True

def machine : Machine (LocalNetwork ι) (Event ι) := ⟨step, Possible⟩

def start (eth : ι → EthernetAddress) (ip : ι → Address) : LocalNetwork ι :=
  fun i => .new (eth i) (ip i)

/-- The call puts the frame `f` out of the interface `j` for the next hop `addr`. -/
def SentFor (j : ι) (addr : UInt32) (f : EthernetFrame) (net : LocalNetwork ι) (event : Event ι) :
    Prop :=
  event.1 = j ∧ f ∈ (net j).emits event.2 ∧ (net j).hop event.2 = some addr

/-- Among the calls, the interface `i` was given a datagram for `addr` with these bytes. -/
def Given (past : List (Event ι)) (i : ι) (addr : UInt32) (payload : BufferList) : Prop :=
  ∃ dgram nextHop, (i, .sendDatagram dgram nextHop) ∈ past ∧ dgram.Sendable ∧
    nextHop.ipv4 = some addr ∧ dgram.serialize = .ok payload

/-- After the calls `past`, every interface is trusted, and the frames in flight are those put out
before, all of them honest. -/
structure Coherent (eth : ι → EthernetAddress) (ip : ι → Address) (past : List (Event ι)) :
    Prop where
  trusted : ∀ i,
    NetworkInterface.Trusted eth ip (Given past i) i (machine.run (start eth ip) past i)
  honest : ∀ j addr f, machine.Occurs (SentFor j addr f) (start eth ip) past →
    NetworkInterface.Honest eth ip (Given past j) j addr f
  sent : ∀ j, ∀ f ∈ (machine.run (start eth ip) past j).framesOut,
    ∃ addr, machine.Occurs (SentFor j addr f) (start eth ip) past

section Runs
variable {eth : ι → EthernetAddress} {ip : ι → Address} {past : List (Event ι)}

omit [DecidableEq ι] in
theorem Given.snoc {i : ι} {addr : UInt32} {payload : BufferList} (event : Event ι)
    (h : Given past i addr payload) : Given (past ++ [event]) i addr payload := by
  obtain ⟨dgram, nextHop, hmem, hrest⟩ := h
  exact ⟨dgram, nextHop, List.mem_append_left _ hmem, hrest⟩

theorem coherent_nil (eth : ι → EthernetAddress) (ip : ι → Address) :
    Coherent eth ip ([] : List (Event ι)) :=
  ⟨fun i => NetworkInterface.trusted_new _ i, fun _ _ _ => (nomatch ·), fun _ _ => (nomatch ·)⟩

/-- A call on the interface `i` of a coherent network goes as trust demands. -/
theorem Coherent.behaves (h : Coherent eth ip past) {i : ι} {op : NetworkInterface.Op}
    (hpossible : Possible (machine.run (start eth ip) past) (i, op)) :
    NetworkInterface.Behaves eth ip (Given (past ++ [(i, op)]) i) i
      (machine.run (start eth ip) past i) op := by
  have htrusted := (h.trusted i).mono fun _ _ => Given.snoc (i, op)
  cases op with
  | sendDatagram dgram nextHop =>
    have hbytes := IPv4Datagram.serialize_eq hpossible.ver_eq hpossible.hlen_ge hpossible.size_eq
    refine htrusted.sendDatagram hbytes fun addr hhop => ?_
    exact ⟨dgram, nextHop, List.mem_append_right _ (List.mem_singleton_self _), hpossible, hhop,
      hbytes⟩
  | recvFrame frame =>
    obtain ⟨j, f, hf, hcarries⟩ := hpossible
    obtain ⟨addr, hsent⟩ := h.sent j f hf
    exact htrusted.recvFrame fun message hheard =>
      ⟨j, (h.honest j addr f hsent).heard hcarries hheard⟩
  | tick ms => exact htrusted.tick ms

theorem Coherent.snoc (h : Coherent eth ip past) {event : Event ι}
    (hpossible : Possible (machine.run (start eth ip) past) event) :
    Coherent eth ip (past ++ [event]) := by
  obtain ⟨i, op⟩ := event
  have hbehaves := h.behaves hpossible
  have hrun : machine.run (start eth ip) (past ++ [(i, op)]) =
      Function.update (machine.run (start eth ip) past) i
        ((machine.run (start eth ip) past i).step op) := machine.run_snoc _ _ _
  constructor
  · rw [hrun]
    apply (Function.forall_update_iff _ (p := fun j s =>
      NetworkInterface.Trusted eth ip (Given (past ++ [(i, op)]) j) j s)).mpr
    exact ⟨hbehaves.trusted, fun j _ => (h.trusted j).mono fun _ _ => Given.snoc (i, op)⟩
  · intro j addr f hoccurs
    rcases (machine.occurs_snoc _ _ _ _).mp hoccurs with hold | ⟨rfl, hmem, hhop⟩
    · exact (h.honest j addr f hold).mono fun _ _ => Given.snoc (i, op)
    · obtain ⟨addr', hhop', hhonest⟩ := hbehaves.honest f hmem
      cases hhop.symm.trans hhop'
      exact hhonest
  · rw [hrun]
    apply (Function.forall_update_iff _ (p := fun j (s : NetworkInterface) => ∀ f ∈ s.framesOut,
      ∃ addr, machine.Occurs (SentFor j addr f) (start eth ip) (past ++ [(i, op)]))).mpr
    have hold : ∀ j, ∀ f ∈ (machine.run (start eth ip) past j).framesOut,
        ∃ addr, machine.Occurs (SentFor j addr f) (start eth ip) (past ++ [(i, op)]) := by
      intro j f hf
      obtain ⟨addr, hoccurs⟩ := h.sent j f hf
      exact ⟨addr, (machine.occurs_snoc _ _ _ _).mpr (Or.inl hoccurs)⟩
    refine ⟨fun f hf => ?_, fun j _ => hold j⟩
    rw [NetworkInterface.framesOut_step] at hf
    rcases List.mem_append.mp hf with hf | hf
    · exact hold i f hf
    · obtain ⟨addr, hhop, -⟩ := hbehaves.honest f hf
      exact ⟨addr, (machine.occurs_snoc _ _ _ _).mpr (Or.inr ⟨rfl, hf, hhop⟩)⟩

theorem coherent_run (hpast : machine.Admits (start eth ip) past) : Coherent eth ip past :=
  machine.run_induction (coherent_nil eth ip) (fun _ _ _ hpossible h => h.snoc hpossible) hpast

/-- A datagram handed up by the interface `i` out of a frame put out for `addr`. -/
theorem Coherent.recvFrame_some (h : Coherent eth ip past) (heth : Function.Injective eth)
    (hunicast : ∀ i, eth i ≠ ethernetBroadcast) {i j : ι} {f frame : EthernetFrame} {addr : UInt32}
    {dgram : InternetDatagram} {t : NetworkInterface}
    (hrecv : (machine.run (start eth ip) past i).recvFrame frame = .ok (some dgram, t))
    (hcarries : f.Carries frame) (hsent : machine.Occurs (SentFor j addr f) (start eth ip) past) :
    (ip i).ipv4 = some addr ∧ ∃ d nextHop, (j, .sendDatagram d nextHop) ∈ past ∧ d.Sendable ∧
      nextHop.ipv4 = some addr ∧ d.serialize = .ok f.payload ∧
      dgram = ⟨{ d.header with cksum := d.header.cksumFor }, [d.payload.concatenate]⟩ := by
  have hdelivers := (NetworkInterface.recvFrame_some _ hrecv).2
  obtain ⟨k, howner, hgiven, haccepts, hparse⟩ :=
    (h.honest j addr f hsent).delivers hcarries hdelivers
  have hk : k = i := by
    rw [(h.trusted i).ethernetAddress_eq] at haccepts
    exact heth (haccepts.resolve_left (hunicast k))
  obtain ⟨d, nextHop, hmem, hsendable, hhop, hbytes⟩ := hgiven
  refine ⟨hk ▸ howner, d, nextHop, hmem, hsendable, hhop, hbytes, ?_⟩
  rw [IPv4Datagram.serialize_eq hsendable.ver_eq hsendable.hlen_ge hsendable.size_eq] at hbytes
  rw [← Except.ok.inj hbytes] at hparse
  exact congrArg Prod.snd (hparse.symm.trans (hsendable.parse_wire {}))

/-- Every mapping an interface holds names the owner of the address, and whatever `recvFrame`
hands up was sent, for the address of this very interface, as it is received. -/
theorem arp_agreement (eth : ι → EthernetAddress) (ip : ι → Address) (heth : Function.Injective eth)
    (hunicast : ∀ i, eth i ≠ ethernetBroadcast) (events : List (Event ι))
    (hevents : machine.Admits (start eth ip) events) :
    (∀ i addr entry, (machine.run (start eth ip) events i).ip2eth addr = some entry →
      ∃ j, (ip j).ipv4 = some addr ∧ eth j = entry.1) ∧
    ∀ past i frame later, events = past ++ (i, .recvFrame frame) :: later →
      ∀ dgram t, (machine.run (start eth ip) past i).recvFrame frame = .ok (some dgram, t) →
        (∃ j f addr, f.Carries frame ∧
          machine.Occurs (SentFor j addr f) (start eth ip) past) ∧
        ∀ j f addr, f.Carries frame → machine.Occurs (SentFor j addr f) (start eth ip) past →
          (ip i).ipv4 = some addr ∧ ∃ d nextHop, (j, .sendDatagram d nextHop) ∈ past ∧
            nextHop.ipv4 = some addr ∧ d.serialize = .ok f.payload ∧
            ∃ cksum, dgram = ⟨{ d.header with cksum }, [d.payload.concatenate]⟩ := by
  refine ⟨fun i => ((coherent_run hevents).trusted i).maps, ?_⟩
  rintro past i frame later rfl dgram t hrecv
  obtain ⟨hpast, hpossible, -⟩ := (machine.admits_append _ _ _).mp hevents
  have hcoherent := coherent_run hpast
  obtain ⟨j, f, hf, hcarries⟩ := hpossible
  obtain ⟨addr, hsent⟩ := hcoherent.sent j f hf
  refine ⟨⟨j, f, addr, hcarries, hsent⟩, fun j f addr hcarries hsent => ?_⟩
  obtain ⟨howner, d, nextHop, hmem, -, hhop, hbytes, hdgram⟩ :=
    hcoherent.recvFrame_some heth hunicast hrecv hcarries hsent
  exact ⟨howner, d, nextHop, hmem, hhop, hbytes, _, hdgram⟩

end Runs

section Exchange

def hostEth (i : Bool) : EthernetAddress := #v[2, 0, 0, 0, 0, bif i then 2 else 1]

def hostIP (i : Bool) : Address := .fromIPv4Numeric (bif i then 2 else 1)

def hosts : LocalNetwork Bool := start hostEth hostIP

def hello : InternetDatagram := { header := { len := 21 }, payload := [[7]] }

def helloFrame : EthernetFrame :=
  (hosts false).ipv4Frame (hostEth true) (hello.header.wire hello.header.cksumFor :: hello.payload)

def question : EthernetFrame :=
  (hosts false).arpFrame ethernetBroadcast ((hosts false).arpRequest 1 2)

def answer : EthernetFrame :=
  (hosts true).arpFrame (hostEth false) ((hosts true).arpReply 2 1 (hostEth false))

/-- The first host asks for the address of the second one, which answers. -/
def exchange : List (Event Bool) :=
  [(false, .sendDatagram hello ⟨some 2, 0⟩), (true, .recvFrame question),
    (false, .recvFrame answer)]

theorem arp_agreement_hello :
    let frame : EthernetFrame := ⟨helloFrame.header, [helloFrame.payload.concatenate]⟩
    ∃ dgram t, (machine.run hosts exchange true).recvFrame frame = .ok (some dgram, t) ∧
      ∃ d nextHop, (false, .sendDatagram d nextHop) ∈ exchange ∧ nextHop.ipv4 = some 2 ∧
        d.serialize = .ok helloFrame.payload ∧
        ∃ cksum, dgram = ⟨{ d.header with cksum }, [d.payload.concatenate]⟩ := by
  intro frame
  have hsendable : hello.Sendable := ⟨rfl, by decide, by decide, by decide, rfl⟩
  have hcarries : helloFrame.Carries frame := EthernetFrame.carries_iff.mpr rfl
  have hevents : machine.Admits hosts (exchange ++ [(true, .recvFrame frame)]) :=
    ⟨hsendable,
      ⟨false, question, by decide +kernel, EthernetFrame.carries_iff.mpr (by decide +kernel)⟩,
      ⟨true, answer, by decide +kernel, EthernetFrame.carries_iff.mpr (by decide +kernel)⟩,
      ⟨false, helloFrame, by decide +kernel, hcarries⟩, trivial⟩
  have hdelivers : (machine.run hosts exchange true).Delivers frame _ :=
    ⟨Or.inr (by decide +kernel), rfl, _, rfl, hsendable.parse_wire {}⟩
  have hsent : machine.Occurs (SentFor false 2 helloFrame) hosts exchange :=
    Or.inr (Or.inr (Or.inl ⟨rfl, by decide +kernel, by decide +kernel⟩))
  have hagree :=
    arp_agreement hostEth hostIP (Bool.injective_iff.mpr (by decide)) (by decide) _ hevents
  have hreturned := hagree.2 exchange true frame [] rfl _ _ hdelivers.recvFrame_eq
  exact ⟨_, _, hdelivers.recvFrame_eq, (hreturned.2 false helloFrame 2 hcarries hsent).2⟩

end Exchange
end LocalNetwork
end Sponge
