import Sponge.Acknowledgments
import Sponge.EndedInput
import Sponge.SpongeSocket

/-!
# Two sockets on a lossy network

Each side is a thread with its event loop, its adapter and its owner. The network may deliver any
packet the other side's adapter ever wrote, any number of times, in any order or never; the kernel
may take and give any number of bytes, and fail any call.

Every run of the sockets refines a run of the two endpoints of `Network`, with the segments the
adapters have taken off the queues put back: `Linked`. What the owners wrote and read is what the
endpoints accepted and handed out.
-/
namespace Sponge

namespace TCPConnection

theorem accepted_behind (given : List TCPSegment) (c : TCPConnection) (op : Op) :
    (c.behind given).accepted op = c.accepted op := by
  cases op <;> rfl

theorem removed_behind (given : List TCPSegment) (c : TCPConnection) (op : Op) :
    (c.behind given).removed op = c.removed op := by
  cases op <;> rfl

/-- Only `end_input_stream` ends the outbound stream. -/
theorem step_inputEnded (c : TCPConnection) (op : Op) :
    (c.step op).sender.stream.inputEnded = match op with
      | .endInputStream => true
      | _ => c.sender.stream.inputEnded := by
  have hmoves : (c.step op).sender.stream.inputEnded = (c.prelude op).sender.stream.inputEnded := by
    refine step_induct (I := fun d => d.sender.stream.inputEnded =
      (c.prelude op).sender.stream.inputEnded) ?_ rfl
    intro d e hmove hd
    cases hmove with
    | send setRst =>
      obtain ⟨tiles, hfills⟩ := d.sender.fillWindow_fills
      rw [(d.sendSegments_eq setRst).1]
      exact hfills.frame.ended_eq.trans hd
    | kill => exact hd
    | empty => exact hd
  rw [hmoves]
  cases op with
  | segmentReceived seg =>
    rcases c.prelude_segmentReceived seg with ⟨-, heq⟩ | ⟨-, heq⟩
    · rw [heq]
    · rw [heq, takeIn_sender]
      split
      · exact (c.sender.ackReceived_latches _ _).1
      · rfl
  | write data =>
    change (c.sender.stream.write data).isInputEnded = _
    rw [ByteStream.write_frame]
    rfl
  | tick ms =>
    change (c.sender.tick ms).stream.inputEnded = _
    rw [TCPSender.tick_eq]
  | _ => rfl

/-- The endpoint looks neither at the ports nor at the checksum of a segment. -/
theorem segmentReceived_readdresses {seg orig : TCPSegment} (h : seg.Readdresses orig)
    (c : TCPConnection) : c.segmentReceived seg = c.segmentReceived orig := by
  obtain ⟨sport, dport, cksum, rfl⟩ := h
  rfl

end TCPConnection

namespace SocketNetwork
open TCPSpongeSocket Network

variable {α κ δ : Type} (A : FdAdapter α κ δ)

abbrev Sockets (α : Type) := Side → Thread α

/-- What a datagram read in the turn may be. -/
def Delivered (peer : Session α) (r : RuleName) (calls : SystemCalls δ) : Prop :=
  r = .datagramsIn → ∀ d, calls.received = .ok d → A.bytes d ∈ A.sent peer.adapter

/-- A turn at one of the two sides that does not throw. -/
def machine : Machine (Sockets α) (Side × Turn δ) where
  step net e := match (net e.1).turn A e.2 with
    | .ok t => Function.update net e.1 t
    | .error _ => net
  enabled net e := e.2.poll.Answers (Delivered A (net e.1.other).session) ∧
    ∃ t, (net e.1).turn A e.2 = .ok t

/-- The runs of the endpoints that no owner writes in after the end. -/
def guarded : Machine Net (Side × TCPConnection.Op) :=
  Network.machine.restrict fun net e => ∀ z, NoWriteAfterEnd z net e

section Linked
variable {A} {Inv : List TCPSegment → α → Prop} {net₀ : Net}
  {events : List (Side × TCPConnection.Op)} {x : Side} {op : TCPConnection.Op}

/-- The session at side `x` after the events: the adapter was given what is missing in the queue,
and the owner's bytes are the endpoint's. -/
structure Traced (Inv : List TCPSegment → α → Prop) (net₀ : Net)
    (events : List (Side × TCPConnection.Op)) (x : Side) (s : Session α) : Prop where
  tcp : ∃ given, Inv given s.adapter ∧ Network.machine.run net₀ events x = s.tcp.behind given
  regular : s.tcp.Regular
  received : s.threadData.received = Network.machine.collect (accepted x) net₀ events
  sent : s.threadData.sent = Network.machine.collect (readOut x) net₀ events
  ended : s.tcp.sender.stream.inputEnded = s.outboundShutdown

/-- The events lead to the two sessions. -/
structure LinkedBy (Inv : List TCPSegment → α → Prop) (net₀ : Net)
    (events : List (Side × TCPConnection.Op)) (σ : Side → Session α) : Prop where
  admits : guarded.Admits net₀ events
  traced : ∀ z, Traced Inv net₀ events z (σ z)

def Linked (Inv : List TCPSegment → α → Prop) (net₀ : Net) (σ : Side → Session α) : Prop :=
  ∃ events, LinkedBy Inv net₀ events σ

/-- The session takes part in a call of its endpoint. -/
structure Acts (Inv : List TCPSegment → α → Prop) (op : TCPConnection.Op) (s s' : Session α) :
    Prop where
  tcp : s'.tcp = s.tcp.step op
  adapter : ∀ given, Inv given s.adapter → Inv given s'.adapter
  received : s'.threadData.received = s.threadData.received ++ s.tcp.accepted op
  sent : s'.threadData.sent = s.threadData.sent ++ s.tcp.removed op
  ended : s.tcp.sender.stream.inputEnded = s.outboundShutdown →
    s'.tcp.sender.stream.inputEnded = s'.outboundShutdown

theorem Traced.acts {s s' : Session α} (h : Traced Inv net₀ events x s) (hacts : Acts Inv op s s') :
    Traced Inv net₀ (events ++ [(x, op)]) x s' := by
  obtain ⟨given, hgiven, hrun⟩ := h.tcp
  have hstep : Network.machine.run net₀ (events ++ [(x, op)]) x = s'.tcp.behind given := by
    rw [Machine.run_snoc]
    change Function.update _ x _ x = _
    rw [Function.update_self, hrun, TCPConnection.step_behind, hacts.tcp]
  refine ⟨⟨given, hacts.adapter given hgiven, hstep⟩, hacts.tcp ▸ h.regular.step op, ?_, ?_,
    hacts.ended h.ended⟩
  · rw [Machine.collect_snoc, ← h.received, hacts.received]
    congr 1
    rw [accepted, if_pos rfl, hrun, TCPConnection.accepted_behind]
  · rw [Machine.collect_snoc, ← h.sent, hacts.sent]
    congr 1
    rw [readOut, if_pos rfl, hrun, TCPConnection.removed_behind]

/-- A call at the other side is not noticed. -/
theorem Traced.other {s : Session α} {z : Side} (h : Traced Inv net₀ events z s) (hz : z ≠ x) :
    Traced Inv net₀ (events ++ [(x, op)]) z s := by
  obtain ⟨given, hgiven, hrun⟩ := h.tcp
  refine ⟨⟨given, hgiven, ?_⟩, h.regular, ?_, ?_, h.ended⟩
  · rw [Machine.run_snoc]
    exact (Function.update_of_ne hz _ _).trans hrun
  · rw [Machine.collect_snoc, accepted, if_neg (Ne.symm hz), List.append_nil]
    exact h.received
  · rw [Machine.collect_snoc, readOut, if_neg (Ne.symm hz), List.append_nil]
    exact h.sent

variable {σ : Side → Session α} {s s' : Session α}

theorem LinkedBy.here (h : LinkedBy Inv net₀ events (Function.update σ x s)) :
    Traced Inv net₀ events x s := by
  have hx := h.traced x
  rwa [Function.update_self] at hx

theorem LinkedBy.there (h : LinkedBy Inv net₀ events (Function.update σ x s)) :
    Traced Inv net₀ events x.other (σ x.other) := by
  have hx := h.traced x.other
  rwa [Function.update_of_ne x.other_ne] at hx

theorem LinkedBy.of_sides (hadmits : guarded.Admits net₀ events) (hx : Traced Inv net₀ events x s)
    (hy : Traced Inv net₀ events x.other (σ x.other)) :
    LinkedBy Inv net₀ events (Function.update σ x s) := by
  refine ⟨hadmits, fun z => ?_⟩
  by_cases hz : z = x
  · subst hz
    rwa [Function.update_self]
  · have hother : z = x.other := by
      cases z <;> cases x <;> first | rfl | exact absurd rfl hz
    subst hother
    rwa [Function.update_of_ne x.other_ne]

/-- A session that takes part in a call keeps the two sides linked. -/
theorem LinkedBy.acts (h : LinkedBy Inv net₀ events (Function.update σ x s))
    (op : TCPConnection.Op) (hacts : Acts Inv op s s')
    (hen : guarded.enabled (Network.machine.run net₀ events) (x, op)) :
    Linked Inv net₀ (Function.update σ x s') := by
  have hadmits : guarded.Admits net₀ (events ++ [(x, op)]) :=
    (guarded.admits_snoc _ _ _).mpr ⟨h.admits, hen⟩
  exact ⟨_, .of_sides hadmits (h.here.acts hacts) (h.there.other x.other_ne)⟩

/-- A change the endpoints do not see. -/
theorem Linked.frame (h : Linked Inv net₀ (Function.update σ x s))
    (htraced : ∀ events, Traced Inv net₀ events x s → Traced Inv net₀ events x s') :
    Linked Inv net₀ (Function.update σ x s') := by
  obtain ⟨events, h⟩ := h
  exact ⟨events, .of_sides h.admits (htraced events h.here) h.there⟩

end Linked

section Callbacks
variable {A} {Inv : List TCPSegment → α → Prop} {net₀ : Net} {σ : Side → Session α} {x : Side}
  {s : Session α}

theorem Linked.endInput (h : Linked Inv net₀ (Function.update σ x s)) :
    Linked Inv net₀ (Function.update σ x s.endInput) := by
  obtain ⟨events, h⟩ := h
  refine h.acts .endInputStream ⟨rfl, fun _ => id, (List.append_nil _).symm,
    (List.append_nil _).symm, fun _ => ?_⟩ ⟨trivial, fun _ => trivial⟩
  exact s.tcp.step_inputEnded .endInputStream

theorem Linked.tick (hlaw : A.Lawful Inv) (h : Linked Inv net₀ (Function.update σ x s)) (ms : ℕ) :
    Linked Inv net₀ (Function.update σ x (s.tick A ms)) := by
  rw [Session.tick]
  split
  · obtain ⟨events, h⟩ := h
    refine h.acts (.tick ms) ⟨rfl, fun _ => hlaw.tick ms, (List.append_nil _).symm,
      (List.append_nil _).symm, fun hended => ?_⟩ ⟨trivial, fun _ => trivial⟩
    exact (s.tcp.step_inputEnded (.tick ms)).trans hended
  · exact h

/-- A datagram from the peer holds a segment the peer's endpoint emitted. -/
theorem Linked.receive (hlaw : A.Lawful Inv) (h : Linked Inv net₀ (Function.update σ x s)) {d : δ}
    {seg : Option TCPSegment} {adapter : α} (hd : A.bytes d ∈ A.sent (σ x.other).adapter)
    (hread : A.read s.adapter d = .ok (seg, adapter)) :
    Linked Inv net₀ (Function.update σ x (s.receive A d seg adapter)) := by
  cases seg with
  | none =>
    refine h.frame fun events ht => ?_
    obtain ⟨given, hgiven, hrun⟩ := ht.tcp
    exact ⟨⟨given, hlaw.read hgiven hread, hrun⟩, ht.regular, ht.received, ht.sent, ht.ended⟩
  | some seg =>
    obtain ⟨events, h⟩ := h
    obtain ⟨given, hgiven, hrun⟩ := h.there.tcp
    obtain ⟨orig, horig, hseg⟩ := hlaw.received hgiven hd hread
    refine h.acts (.segmentReceived orig) ⟨?_, fun _ hx => hlaw.read hx hread,
      (List.append_nil _).symm, (List.append_nil _).symm, fun hended => ?_⟩
      ⟨?_, fun _ => trivial⟩
    · exact s.tcp.segmentReceived_readdresses hseg
    · change (s.tcp.segmentReceived seg).sender.stream.inputEnded = _
      rw [s.tcp.segmentReceived_readdresses hseg]
      exact (s.tcp.step_inputEnded (.segmentReceived orig)).trans hended
    · change orig ∈ (Network.machine.run net₀ events x.other).segmentsOut
      rw [hrun]
      exact List.mem_append_left _ horig

/-- Bytes are taken from the owner only while the outbound stream is open. -/
theorem Linked.taken (h : Linked Inv net₀ (Function.update σ x s)) {data : List Byte}
    (hle : data.length ≤ s.tcp.sender.stream.remainingCapacity)
    (hopen : s.outboundShutdown = false) :
    Linked Inv net₀ (Function.update σ x (s.taken data)) := by
  obtain ⟨events, h⟩ := h
  have hall : s.tcp.accepted (.write data) = data := by
    rw [TCPConnection.accepted, Session.writeSize_of_le hle, List.take_length]
  refine h.acts (.write data) ⟨rfl, fun _ => id, ?_, (List.append_nil _).symm,
    fun hended => ?_⟩ ⟨trivial, ?_⟩
  · rw [hall]
    rfl
  · exact (s.tcp.step_inputEnded (.write data)).trans hended
  · intro z hz
    subst hz
    obtain ⟨given, -, hrun⟩ := h.here.tcp
    rw [hrun]
    exact h.here.ended.trans hopen

/-- What the owner was given leaves the inbound stream. -/
theorem Linked.handed (h : Linked Inv net₀ (Function.update σ x s)) {n : ℕ}
    (hle : n ≤ s.offered.length) : Linked Inv net₀ (Function.update σ x (s.handed n)) := by
  obtain ⟨events, h⟩ := h
  have hlength := s.length_offered_le_bufferSize
  have hmax := s.length_offered_le
  have htake : s.offered.take n = s.tcp.removed (.pop n) := by
    rw [Session.offered, ByteStream.peekOutput, List.take_take]
    congr 1
    omega
  refine h.acts (.pop n) ⟨rfl, fun _ => id, (List.append_nil _).symm, ?_, fun hended => hended⟩
    ⟨?_, fun _ => trivial⟩
  · rw [← htake]
    rfl
  · obtain ⟨given, -, hrun⟩ := h.here.tcp
    change n ≤ (Network.machine.run net₀ events x).inboundStream.bufferSize
    rw [hrun]
    exact hle.trans hlength

theorem Linked.shut (h : Linked Inv net₀ (Function.update σ x s)) :
    Linked Inv net₀ (Function.update σ x s.shut) :=
  h.frame fun _ ht => ⟨ht.tcp, ht.regular, ht.received, ht.sent, ht.ended⟩

theorem Linked.segmentsOut (hlaw : A.Lawful Inv) (h : Linked Inv net₀ (Function.update σ x s))
    {s' : Session α} (hsend : s.segmentsOut A = .ok s') :
    Linked Inv net₀ (Function.update σ x s') := by
  refine h.frame fun events ht => ?_
  obtain ⟨given, hgiven, hrun⟩ := ht.tcp
  obtain ⟨adapter, adapterFd, hadapter, heq⟩ := Session.segmentsOut_eq hlaw hgiven ht.regular
  cases heq.symm.trans hsend
  refine ⟨⟨_, hadapter, ?_⟩, ⟨ht.regular.sender, List.forall_mem_nil _⟩, ht.received, ht.sent,
    ht.ended⟩
  rw [hrun, TCPConnection.behind, TCPConnection.behind, List.append_nil]

/-- Rule 2 counts on the outbound stream being open. -/
def Needs (r : RuleName) (s : Session α) : Prop := r = .bytesIn → s.outboundShutdown = false

theorem keeps (hlaw : A.Lawful Inv) (net₀ : Net) (σ : Side → Session α) (x : Side) :
    (eventLoop A).Keeps (Delivered A (σ x.other))
      (fun s => Linked Inv net₀ (Function.update σ x s)) Needs where
  interested := by
    intro r s _ _ hinterest hr
    subst hr
    change (s.tcp.isActive && !s.outboundShutdown && _) = true at hinterest
    simp only [Bool.and_eq_true, Bool.not_eq_true'] at hinterest
    exact hinterest.1.2
  cancel := by
    intro r s s' hs hcancel
    rcases cancel_eq_ok hcancel with ⟨rfl, rfl⟩ | rfl
    · exact ⟨hs.endInput, fun q hq _ hr => absurd hr hq⟩
    · exact ⟨hs, fun _ _ hq => hq⟩
  callback := by
    intro r calls s s' hcalls hs hneeds hcallback
    cases r with
    | datagramsIn =>
      obtain ⟨d, seg, adapter, hreceived, hread, rfl⟩ := Session.datagramsIn_eq_ok hcallback
      exact ⟨hs.receive hlaw (hcalls rfl d hreceived) hread, fun _ _ hq => hq⟩
    | bytesIn =>
      obtain ⟨data, hle, hs'⟩ := Session.bytesIn_eq_ok hcallback
      have htaken := hs.taken hle (hneeds rfl)
      refine ⟨?_, fun q hq _ hr => absurd hr hq⟩
      rcases hs' with ⟨rfl, -⟩ | rfl
      · exact htaken
      · exact htaken.endInput
    | bytesOut =>
      obtain ⟨n, -, hle, -, ⟨-, rfl⟩ | ⟨-, -, rfl⟩⟩ := Session.bytesOut_eq_ok hcallback
      · exact ⟨(hs.handed hle).shut, fun _ _ hq => hq⟩
      · exact ⟨hs.handed hle, fun _ _ hq => hq⟩
    | segmentsOut =>
      refine ⟨hs.segmentsOut hlaw hcallback, fun q _ hq hr => ?_⟩
      obtain ⟨events, h⟩ := hs
      obtain ⟨given, hgiven, -⟩ := h.here.tcp
      obtain ⟨adapter, adapterFd, -, heq⟩ := Session.segmentsOut_eq hlaw hgiven h.here.regular
      cases heq.symm.trans hcallback
      exact hq hr

end Callbacks

section Runs
variable {A} {Inv : List TCPSegment → α → Prop} {net₀ : Net} {net : Sockets α}

/-- Both threads are linked to a run of their endpoints. -/
structure Running (Inv : List TCPSegment → α → Prop) (net₀ : Net) (net : Sockets α) : Prop where
  linked : Linked Inv net₀ fun z => (net z).session
  rules : ∀ z, (net z).rules.Nodup

theorem turn_linked (hlaw : A.Lawful Inv) {x : Side} {u : Turn δ} {t : Thread α}
    (h : Running Inv net₀ net) (hu : u.poll.Answers (Delivered A (net x.other).session))
    (hturn : (net x).turn A u = .ok t) :
    Linked Inv net₀ (Function.update (fun z => (net z).session) x t.session) ∧
      t.rules.Sublist (net x).rules := by
  have hsame : Function.update (fun z => (net z).session) x (net x).session =
      fun z => (net z).session := Function.update_eq_self x fun z => (net z).session
  have hlinked : Linked Inv net₀ (Function.update (fun z => (net z).session) x (net x).session) :=
    hsame.symm ▸ h.linked
  exact Thread.turn_keeps (keeps hlaw net₀ (fun z => (net z).session) x)
    (fun _ ms hs => hs.tick hlaw ms) hu (h.rules x) hlinked hturn

theorem step_eq {e : Side × Turn δ} {t : Thread α} (hturn : (net e.1).turn A e.2 = .ok t) :
    (machine A).step net e = Function.update net e.1 t := by
  simp only [machine, hturn]

/-- What holds of every thread and is kept by the turn that is made still holds of every thread. -/
theorem step_keeps {P : Thread α → Prop} {e : Side × Turn δ} (hen : (machine A).enabled net e)
    (hkeeps : ∀ t, (net e.1).turn A e.2 = .ok t → P (net e.1) → P t) (h : ∀ z, P (net z))
    (z : Side) : P ((machine A).step net e z) := by
  obtain ⟨-, t, hturn⟩ := hen
  rw [step_eq hturn]
  by_cases hz : z = e.1
  · rw [hz, Function.update_self]
    exact hkeeps t hturn (h e.1)
  · rw [Function.update_of_ne hz]
    exact h z

theorem Running.step (hlaw : A.Lawful Inv) (h : Running Inv net₀ net) {e : Side × Turn δ}
    (hen : (machine A).enabled net e) : Running Inv net₀ ((machine A).step net e) := by
  refine ⟨?_, step_keeps (P := fun t => t.rules.Nodup) hen (fun t hturn hrules => ?_) h.rules⟩
  · obtain ⟨hu, t, hturn⟩ := hen
    rw [step_eq hturn]
    have hsessions : (fun z => (Function.update net e.1 t z).session) =
        Function.update (fun z => (net z).session) e.1 t.session := by
      funext z
      by_cases hz : z = e.1
      · rw [hz, Function.update_self, Function.update_self]
      · rw [Function.update_of_ne hz, Function.update_of_ne hz]
    rw [hsessions]
    exact (turn_linked hlaw h hu hturn).1
  · exact (turn_linked hlaw h hen.1 hturn).2.nodup hrules

theorem Running.run (hlaw : A.Lawful Inv) (h : Running Inv net₀ net) {run : List (Side × Turn δ)}
    (hrun : (machine A).Admits net run) : Running Inv net₀ ((machine A).run net run) :=
  (machine A).invariant h (fun _ _ ht hen => ht.step hlaw hen) hrun

/-- `connect` has sent the SYN before the first turn. -/
theorem Linked.opened {σ : Side → Session α} {x : Side} {tcp : TCPConnection} {adapter : α}
    {s : Session α} (h : Linked Inv net₀ (Function.update σ x { tcp, adapter }))
    (hs : s = { tcp, adapter } ∨ s = { tcp := tcp.connect, adapter }) :
    Linked Inv net₀ (Function.update σ x s) := by
  rcases hs with rfl | rfl
  · exact h
  · obtain ⟨events, h⟩ := h
    refine h.acts .connect ⟨rfl, fun _ => id, rfl, rfl, fun hended => ?_⟩
      ⟨trivial, fun _ => trivial⟩
    exact (tcp.step_inputEnded .connect).trans hended

theorem running_start (hstart : ∀ z, Starts A Inv (net z)) :
    ∃ (cfg : Side → TCPConfig) (random : Side → WrappingInt32) (net₀ : Net),
      (∀ z, TCPConnection.new (cfg z) (random z) = some (net₀ z)) ∧ Running Inv net₀ net := by
  choose cfg random net₀ adapter hnew hinv hrules _ hsession using fun z => (hstart z).session_eq
  refine ⟨cfg, random, net₀, hnew, ?_, hrules⟩
  have hfresh : Linked Inv net₀ fun z => { tcp := net₀ z, adapter := adapter z } := by
    refine ⟨[], trivial, fun z => ?_⟩
    have hopen : (net₀ z).sender.stream.inputEnded = false := by
      obtain ⟨v, s, -, hs, heq⟩ := TCPConnection.new_eq_some (hnew z)
      obtain ⟨stream, hstream, rfl⟩ := TCPSender.new_eq_some hs
      obtain ⟨-, rfl⟩ := ByteStream.new_eq_some hstream
      rw [heq]
      rfl
    exact ⟨⟨[], hinv z, rfl⟩, TCPConnection.regular_new (hnew z), rfl, rfl, hopen⟩
  -- one side after the other
  have hone : Linked Inv net₀
      (Function.update (fun z => { tcp := net₀ z, adapter := adapter z }) .A (net .A).session) := by
    refine Linked.opened ?_ (hsession .A)
    rw [Function.update_eq_self Side.A
      fun z => ({ tcp := net₀ z, adapter := adapter z } : Session α)]
    exact hfresh
  have hboth : Linked Inv net₀ (Function.update (Function.update
      (fun z => { tcp := net₀ z, adapter := adapter z }) .A (net .A).session) .B
        (net .B).session) := by
    refine Linked.opened ?_ (hsession .B)
    convert hone using 1
    funext z
    cases z <;> rfl
  convert hboth using 1
  funext z
  cases z <;> rfl

end Runs

section Small
open TCPOverUDPSocketAdapter

/-- What happens in a turn: the network delivers one of the peer's datagrams, the owner writes, or
closes if it writes nothing, and time passes. What can go out goes out. -/
structure Action where
  deliver : Option ℕ := none
  owner : Option (List Byte) := none
  elapsed : ℕ := 0

def turnOf (peer : Side) (sent : List (List Byte)) (a : Action) : Turn ReceivedDatagram where
  poll := .ready
    (fun i => { pollin := if i = 0 then a.deliver.isSome else a.owner.isSome, pollout := true })
    (fun _ => {
      received := match a.deliver.bind fun i => sent[i]? with
        | some payload => .ok { sourceAddress := smallAddress peer, payload }
        | none => .error "recvfrom: Resource temporarily unavailable"
      kernel := {
        read := fun n => .ok ((a.owner.getD []).take n)
        writev := fun bytes => .ok bytes.length
        shutdown := .ok ()
        close := .ok () } })
  elapsed := a.elapsed

/-- The turns of a number of actions, each one with the datagrams that were sent before it. -/
def play (net : Sockets TCPOverUDPSocketAdapter) :
    List (Side × Action) → List (Side × Turn ReceivedDatagram)
  | [] => []
  | (x, a) :: actions =>
    let u := turnOf x.other (adapter.sent (net x.other).session.adapter) a
    (x, u) :: play ((machine adapter).step net (x, u)) actions

/-- No turn throws. -/
def playable (net : Sockets TCPOverUDPSocketAdapter) : List (Side × Action) → Bool
  | [] => true
  | (x, a) :: actions =>
    let u := turnOf x.other (adapter.sent (net x.other).session.adapter) a
    ((net x).turn adapter u).toOption.isSome && playable ((machine adapter).step net (x, u)) actions

theorem play_admits (net : Sockets TCPOverUDPSocketAdapter) (actions : List (Side × Action))
    (h : playable net actions = true) :
    ((machine adapter).restrict fun _ e => e.2.Undisturbed).Admits net (play net actions) := by
  induction actions generalizing net with
  | nil => trivial
  | cons e actions ih =>
    obtain ⟨x, a⟩ := e
    obtain ⟨hturn, hrest⟩ := (Bool.and_eq_true _ _).mp h
    obtain ⟨t, ht⟩ := Option.isSome_iff_exists.mp hturn
    refine ⟨⟨⟨fun r _ d hd => ?_, t, eq_ok_of_toOption ht⟩, rfl, fun hpoll => by cases hpoll⟩,
      ih _ hrest⟩
    dsimp only at hd
    split at hd
    · next payload hget =>
      cases hd
      obtain ⟨i, -, hi⟩ := Option.bind_eq_some_iff.mp hget
      exact List.mem_of_getElem? hi
    · cases hd

def smallRun (actions : List (Side × Action)) : Sockets TCPOverUDPSocketAdapter :=
  (machine adapter).run smallSockets (play smallSockets actions)

/-- The handshake, and a byte of the owner of side A. -/
def opening : List (Side × Action) :=
  [(.A, {}), (.B, { deliver := some 0 }), (.B, {}), (.A, { deliver := some 0 }), (.A, {}),
    (.A, { owner := some [7] }), (.B, { deliver := some 2 }), (.B, {}), (.B, {})]

end Small

section EndToEnd
variable {A} {Inv : List TCPSegment → α → Prop} {net : Sockets α} {run : List (Side × Turn δ)}

/-- A run of the endpoints behind a run of the sockets. -/
theorem endpoints_of_run (hlaw : A.Lawful Inv) (hstart : ∀ z, Starts A Inv (net z))
    (hrun : (machine A).Admits net run) :
    ∃ (cfg : Side → TCPConfig) (random : Side → WrappingInt32) (net₀ : Net)
      (events : List (Side × TCPConnection.Op)),
      (∀ z, TCPConnection.new (cfg z) (random z) = some (net₀ z)) ∧
        LinkedBy Inv net₀ events fun z => ((machine A).run net run z).session := by
  obtain ⟨cfg, random, net₀, hnew, hrunning⟩ := running_start hstart
  obtain ⟨events, hlinked⟩ := (hrunning.run hlaw hrun).linked
  exact ⟨cfg, random, net₀, events, hnew, hlinked⟩

/-- What an owner was given, with what is buffered for it, is an initial part of what the other
owner's bytes were, whatever the network and the kernels do. -/
theorem owners_get_prefix (hlaw : A.Lawful Inv) (hstart : ∀ z, Starts A Inv (net z))
    (hrun : (machine A).Admits net run)
    (hlen : ∀ z, ((machine A).run net run z).session.threadData.received.length < 2 ^ 31 - 2)
    (x : Side) :
    ((machine A).run net run x.other).session.threadData.sent ++
        ((machine A).run net run x.other).session.tcp.inboundStream.contents <+:
      ((machine A).run net run x).session.threadData.received := by
  obtain ⟨cfg, random, net₀, events, hnew, hlinked⟩ := endpoints_of_run hlaw hstart hrun
  have hadmits := Network.machine.admits_of_restrict hlinked.admits
  have hx := hlinked.traced x
  have hy := hlinked.traced x.other
  have hlenx := hlen x
  rw [hx.received] at hlenx ⊢
  rw [hy.sent]
  obtain ⟨given, -, hpeer⟩ := hy.tcp
  obtain ⟨tiles, h⟩ := channel_run hnew x hadmits hlenx
  have hdelivered := h.agrees.represents.delivered
  rw [hpeer] at hdelivered
  exact hdelivered.trans h.sent_isPrefix

theorem owners_get_prefix_byte :
    (smallRun opening .B).session.threadData.sent = [7] ∧
      (smallRun opening .B).session.threadData.sent ++
          (smallRun opening .B).session.tcp.inboundStream.contents <+:
        (smallRun opening .A).session.threadData.received := by
  have hrun := play_admits smallSockets opening (by decide +kernel)
  have h := owners_get_prefix TCPOverUDPSocketAdapter.lawful smallSockets_starts
    ((machine _).admits_of_restrict hrun) (fun z => by cases z <;> decide +kernel) .A
  rw [Side.other] at h
  unfold smallRun
  exact ⟨by decide +kernel, h⟩

end EndToEnd
end SocketNetwork
end Sponge
