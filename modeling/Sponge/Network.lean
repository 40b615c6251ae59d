import Sponge.Endpoint

/-!
# Two endpoints on a lossy network

The network may deliver any segment either side ever emitted, any number of
times, in any order or never. `Channel` is the invariant of one direction: the
tiles sent so far carry the bytes accepted at one end, and the receiver at the
other end agrees with them.
-/
namespace Sponge
open TCPSender TCPConnection TCPSegment

namespace TCPConnection
variable {c d : TCPConnection} {op : Op}

theorem sendSegments_eq (c : TCPConnection) (setRst : Bool) :
    (c.sendSegments setRst).sender = { c.sender.fillWindow with segmentsOut := [] } ∧
      (c.sendSegments setRst).receiver = c.receiver := by
  rw [sendSegments]
  rw [cleanShutdown_eq]
  exact ⟨rfl, rfl⟩

/-- The actions of an endpoint reach its receiver only to mark an error. -/
theorem step_receiver {I : TCPReceiver → Prop} (herror : ∀ v, I v → I v.setError)
    (h : I (c.prelude op).receiver) : I (c.step op).receiver := by
  refine step_induct (I := fun d => I d.receiver) ?_ h
  intro d e hmove hd
  cases hmove with
  | send setRst =>
    rw [(d.sendSegments_eq setRst).2]
    exact hd
  | kill => exact herror _ hd
  | empty => exact hd

/-- What all operations of a sender keep, and forgetting its queue and marking an error keep too,
is kept by every call. -/
theorem step_sender {I : TCPSender → Prop} (hop : ∀ s op, I s → I (s.step op))
    (hclear : ∀ s, I s → I { s with segmentsOut := [] })
    (herror : ∀ s, I s → I { s with stream := s.stream.setError }) (h : I c.sender) :
    I (c.step op).sender := by
  refine step_induct (I := fun d => I d.sender) ?_ ?_
  · intro d e hmove hd
    cases hmove with
    | send setRst =>
      rw [(d.sendSegments_eq setRst).1]
      exact hclear _ (hop _ .fillWindow hd)
    | kill => exact herror _ hd
    | empty => exact hop _ .sendEmptySegment hd
  · cases op with
    | segmentReceived seg =>
      rcases c.prelude_segmentReceived seg with ⟨-, heq⟩ | ⟨-, heq⟩
      · rw [heq]
        exact h
      · rw [heq, takeIn_sender]
        split
        · exact hop _ (.ackReceived _ _) h
        · exact h
    | write data => exact hop _ (.write data) h
    | tick ms => exact hop _ (.tick ms) h
    | endInputStream => exact hop _ .endInput h
    | connect => exact h
    | read len => exact h
    | pop len => exact h

/-- A segment is passed over, or taken in by the receiver. -/
theorem prelude_receiver (c : TCPConnection) (seg : TCPSegment) :
    ¬ c.Takes seg ∧ (c.prelude (.segmentReceived seg)).receiver = c.receiver ∨
      c.Takes seg ∧
        (c.prelude (.segmentReceived seg)).receiver = c.receiver.segmentReceived seg := by
  rcases c.prelude_segmentReceived seg with ⟨htakes, heq⟩ | ⟨htakes, heq⟩
  · rw [heq]
    exact Or.inl ⟨htakes, rfl⟩
  · rw [heq, takeIn_receiver]
    exact Or.inr ⟨htakes, rfl⟩

section Agree
variable {isn : WrappingInt32} {S taken : List Byte}

/-- The calls the network and the reader may make on an endpoint. -/
def Fair (isn : WrappingInt32) (S : List Byte) (c : TCPConnection) : Op → Prop
  | .segmentReceived seg => (∃ i, seg.Carries isn S i) ∨ seg.Blank
  | .pop len => len ≤ c.inboundStream.bufferSize
  | _ => True

/-- The receiver stays in agreement with the stream it is sent. -/
theorem agrees_step (h : TCPReceiver.Agrees isn S taken c.receiver) (hS : S.length < 2 ^ 31 - 2)
    (hfair : Fair isn S c op) :
    TCPReceiver.Agrees isn S (taken ++ c.removed op) (c.step op).receiver := by
  refine step_receiver (fun v hv => hv.setError) ?_
  cases op with
  | segmentReceived seg =>
    simp only [removed, List.append_nil]
    rcases c.prelude_receiver seg with ⟨-, heq⟩ | ⟨-, heq⟩
    · rw [heq]
      exact h
    · rw [heq]
      rcases hfair with ⟨i, hseg⟩ | hblank
      · exact h.segmentReceived hS hseg
      · exact (h.segmentReceived_blank (by omega) hblank.payload_eq hblank.syn_eq
          hblank.fin_eq).1
  | read len =>
    exact h.step hS (show TCPReceiver.Enabled isn S c.receiver (.read len) from trivial)
  | pop len =>
    exact h.step hS (show TCPReceiver.Enabled isn S c.receiver (.pop len) from hfair)
  | write data => simpa [removed, prelude] using h
  | tick ms => simpa [removed, prelude] using h
  | endInputStream => simpa [removed, prelude] using h
  | connect => simpa [removed, prelude] using h

end Agree
end TCPConnection

inductive Side where
  | A
  | B
  deriving DecidableEq

def Side.other : Side → Side
  | .A => .B
  | .B => .A

theorem Side.other_other (x : Side) : x.other.other = x := by
  cases x <;> rfl

theorem Side.other_ne (x : Side) : x.other ≠ x := by
  cases x <;> decide

namespace Network

abbrev Net := Side → TCPConnection

/-- A call at one of the two sides. Segments come from what the other side emitted. -/
def Enabled (net : Net) : Side × TCPConnection.Op → Prop
  | (x, .segmentReceived seg) => seg ∈ (net x.other).segmentsOut
  | (x, .pop len) => len ≤ (net x).inboundStream.bufferSize
  | _ => True

def machine : Machine Net (Side × TCPConnection.Op) where
  step net e := Function.update net e.1 ((net e.1).step e.2)
  enabled := Enabled

instance (net : Net) : ∀ e, Decidable (machine.enabled net e)
  | (x, .segmentReceived seg) => inferInstanceAs (Decidable (seg ∈ (net x.other).segmentsOut))
  | (x, .pop len) => inferInstanceAs (Decidable (len ≤ (net x).inboundStream.bufferSize))
  | (_, .write _) => .isTrue trivial
  | (_, .tick _) => .isTrue trivial
  | (_, .endInputStream) => .isTrue trivial
  | (_, .connect) => .isTrue trivial
  | (_, .read _) => .isTrue trivial

/-- The bytes `write` accepts at side `x`. -/
def accepted (x : Side) (net : Net) (e : Side × TCPConnection.Op) : List Byte :=
  if e.1 = x then (net x).accepted e.2 else []

/-- The bytes read from the inbound stream of side `x`. -/
def readOut (x : Side) (net : Net) (e : Side × TCPConnection.Op) : List Byte :=
  if e.1 = x then (net x).removed e.2 else []

/-- One direction of the traffic, from `x` to `y`. -/
structure Channel (W taken : List Byte) (tiles : List OrderedSegment) (x y : TCPConnection) :
    Prop where
  drives : Drives (fun _ => True) W tiles x
  agrees : TCPReceiver.Agrees x.sender.isn (payloads tiles) taken y.receiver

section Channel
variable {W taken : List Byte} {tiles : List OrderedSegment} {x y : TCPConnection}
  {op : TCPConnection.Op}

theorem Channel.sent_isPrefix (h : Channel W taken tiles x y) : payloads tiles <+: W :=
  ⟨_, h.drives.history.sent_eq⟩

/-- While fewer than `2 ^ 32` bytes were accepted, the end marker of the stream is right. -/
theorem fits_of_length {Q : WrappingInt32 → Prop} (h : Drives Q W tiles x)
    (hlen : (W ++ x.accepted op).length < 2 ^ 31 - 2) (data : List Byte)
    (hop : op = .write data) : x.sender.MarkerFits (.write data) := by
  subst hop
  have hsent := congrArg List.length h.history.sent_eq
  have hbuf := h.sound.stream_wf.length_contents
  have hsize := x.sender.stream.writeSize_le_length data
  simp only [List.length_append, TCPConnection.accepted, List.length_take] at hlen hsent
  change x.sender.stream.endOfBuffer + x.sender.stream.writeSize data < 2 ^ 32
  omega

theorem payloads_append (tiles more : List OrderedSegment) :
    payloads (tiles ++ more) = payloads tiles ++ payloads more := by
  simp [payloads]

/-- A call at the sending side. -/
theorem Channel.send (h : Channel W taken tiles x y)
    (hlen : (W ++ x.accepted op).length < 2 ^ 31 - 2) :
    ∃ more, Channel (W ++ x.accepted op) taken (tiles ++ more) (x.step op) y ∧
      (x.sender.fin = true → more = [] ∧ (x.step op).sender.fin = true) ∧
      (x.step op).sender.isn = x.sender.isn := by
  obtain ⟨more, hmore⟩ := h.drives.step (fits_of_length h.drives hlen) (fun _ _ => trivial)
  refine ⟨more, ⟨hmore.drives, ?_⟩, hmore.finished, hmore.isn_eq⟩
  rw [hmore.isn_eq, payloads_append]
  exact h.agrees.append_right _

/-- What travels on the network is fair to the receiver. -/
theorem Channel.fair_of_emitted (h : Channel W taken tiles x y) {seg : TCPSegment}
    (hseg : seg ∈ x.segmentsOut) :
    Fair x.sender.isn (payloads tiles) y (.segmentReceived seg) := by
  rcases h.drives.emitted seg hseg with ⟨t, ht, hcopy⟩ | hblank
  · exact Or.inl ⟨_, hcopy.carries (h.drives.history.carries t ht)⟩
  · exact Or.inr hblank

/-- A call at the receiving side. -/
theorem Channel.receive (h : Channel W taken tiles x y) (hlen : W.length < 2 ^ 31 - 2)
    (hfair : Fair x.sender.isn (payloads tiles) y op) :
    Channel W (taken ++ y.removed op) tiles x (y.step op) :=
  ⟨h.drives, agrees_step h.agrees (h.sent_isPrefix.length_le.trans_lt hlen) hfair⟩

end Channel

theorem drives_new {cfg : TCPConfig} {random : WrappingInt32} {c : TCPConnection}
    (h : TCPConnection.new cfg random = some c) (Q : WrappingInt32 → Prop) :
    Drives Q [] [] c ∧ ∀ isn S, TCPReceiver.Agrees isn S [] c.receiver ∧
      TCPReceiver.FinAgrees S False c.receiver := by
  obtain ⟨v, s, hv, hs, rfl⟩ := TCPConnection.new_eq_some h
  have hack : v.ackno = none := by
    obtain ⟨r, -, rfl⟩ := TCPReceiver.new_eq_some hv
    rfl
  have hout : s.segmentsOut = [] := by
    obtain ⟨stream, -, rfl⟩ := TCPSender.new_eq_some hs
    rfl
  refine ⟨⟨sound_new hs, history_new hs, by simp, ?_, by simp, by simp, ?_, by simp⟩,
    fun isn S => TCPReceiver.agrees_new hv isn S⟩
  · intro seg hseg
    rw [hout] at hseg
    cases hseg
  · intro ackno hsome
    rw [hack] at hsome
    cases hsome

/-- An event takes place at one side and leaves the other alone. -/
theorem step_cases (net : Net) (x : Side) (e : Side × TCPConnection.Op) :
    (e.1 = x ∧ machine.step net e x = (net x).step e.2 ∧
      machine.step net e x.other = net x.other ∧ accepted x net e = (net x).accepted e.2 ∧
      accepted x.other net e = [] ∧ readOut x.other net e = []) ∨
    (e.1 = x.other ∧ machine.step net e x = net x ∧
      machine.step net e x.other = (net x.other).step e.2 ∧ accepted x net e = [] ∧
      accepted x.other net e = (net x.other).accepted e.2 ∧
      readOut x.other net e = (net x.other).removed e.2) := by
  obtain ⟨z, op⟩ := e
  by_cases hz : z = x
  · subst hz
    exact Or.inl ⟨rfl, Function.update_self .., Function.update_of_ne z.other_ne .., if_pos rfl,
      if_neg z.other_ne.symm, if_neg z.other_ne.symm⟩
  · have hother : z = x.other := by
      cases z <;> cases x <;> first | rfl | exact absurd rfl hz
    subst hother
    exact Or.inr ⟨rfl, Function.update_of_ne x.other_ne.symm .., Function.update_self ..,
      if_neg hz, if_pos rfl, if_pos rfl⟩

section Run
variable {W taken : List Byte} {tiles : List OrderedSegment} {net : Net} {x : Side}
  {e : Side × TCPConnection.Op}

/-- What an event at the receiving side may do. -/
theorem Channel.fair (h : Channel W taken tiles (net x) (net x.other)) (hen : Enabled net e)
    (hside : e.1 = x.other) :
    Fair (net x).sender.isn (payloads tiles) (net x.other) e.2 := by
  obtain ⟨z, op⟩ := e
  subst hside
  cases op with
  | segmentReceived seg =>
    have hseg : seg ∈ (net x.other.other).segmentsOut := hen
    rw [Side.other_other] at hseg
    exact h.fair_of_emitted hseg
  | pop len => exact hen
  | _ => trivial

theorem Channel.step (h : Channel W taken tiles (net x) (net x.other)) (hen : Enabled net e)
    (hlen : (W ++ accepted x net e).length < 2 ^ 31 - 2) :
    ∃ more, Channel (W ++ accepted x net e) (taken ++ readOut x.other net e) (tiles ++ more)
      (machine.step net e x) (machine.step net e x.other) := by
  rcases step_cases net x e with
    ⟨-, hx, hy, hacc, -, hread⟩ | ⟨hside, hx, hy, hacc, -, hread⟩
  · rw [hx, hy, hread, List.append_nil]
    rw [hacc] at hlen ⊢
    obtain ⟨more, hmore, -⟩ := h.send hlen
    exact ⟨more, hmore⟩
  · rw [hx, hy, hread]
    rw [hacc, List.append_nil] at hlen ⊢
    refine ⟨[], ?_⟩
    rw [List.append_nil]
    exact h.receive hlen (h.fair hen hside)

variable {cfg : Side → TCPConfig} {random : Side → WrappingInt32} {net₀ : Net}
  {events : List (Side × TCPConnection.Op)}

/-- The channel invariant along a run, while a direction carries fewer than `2 ^ 31 - 2` bytes. -/
theorem channel_run (hnew : ∀ z, TCPConnection.new (cfg z) (random z) = some (net₀ z))
    (x : Side) (hrun : machine.Admits net₀ events)
    (hlen : (machine.collect (accepted x) net₀ events).length < 2 ^ 31 - 2) :
    ∃ tiles, Channel (machine.collect (accepted x) net₀ events)
      (machine.collect (readOut x.other) net₀ events) tiles
      (machine.run net₀ events x) (machine.run net₀ events x.other) := by
  revert hlen
  refine machine.run_induction (P := fun events =>
    (machine.collect (accepted x) net₀ events).length < 2 ^ 31 - 2 →
    ∃ tiles, Channel (machine.collect (accepted x) net₀ events)
      (machine.collect (readOut x.other) net₀ events) tiles
      (machine.run net₀ events x) (machine.run net₀ events x.other)) ?_ ?_ hrun
  · intro _
    refine ⟨[], (drives_new (hnew x) _).1, ?_⟩
    exact ((drives_new (hnew x.other) (fun _ => True)).2 _ _).1
  · intro past e _ hen ih hlen
    obtain ⟨tiles, hchannel⟩ := ih ((machine.collect_length_le _ _ _ _).trans_lt hlen)
    simp only [Machine.collect_snoc, Machine.run_snoc] at hlen ⊢
    obtain ⟨more, hmore⟩ := hchannel.step hen hlen
    exact ⟨tiles ++ more, hmore⟩

end Run

/-- What was read at one side, followed by what is buffered there, is an initial part of what
the other side's writes accepted. -/
theorem delivered_isPrefix {cfg : Side → TCPConfig} {random : Side → WrappingInt32} {net₀ : Net}
    (hnew : ∀ z, TCPConnection.new (cfg z) (random z) = some (net₀ z))
    {events : List (Side × TCPConnection.Op)} (hrun : machine.Admits net₀ events)
    (hlen : ∀ z, (machine.collect (accepted z) net₀ events).length < 2 ^ 31 - 2) (x : Side) :
    machine.collect (readOut x.other) net₀ events ++
        (machine.run net₀ events x.other).inboundStream.contents <+:
      machine.collect (accepted x) net₀ events := by
  obtain ⟨tiles, h⟩ := channel_run hnew x hrun (hlen x)
  exact h.agrees.represents.delivered.trans h.sent_isPrefix

section Small

/-- Two endpoints with room for four bytes each way and initial sequence numbers 5 and 100. -/
def smallCfg (x : Side) : TCPConfig :=
  { recvCapacity := 4, sendCapacity := 4, fixedIsn := some (if x = .A then ⟨5⟩ else ⟨100⟩) }

theorem smallCfg_isSome (x : Side) : (TCPConnection.new (smallCfg x) ⟨0⟩).isSome = true := by
  cases x <;> rfl

def smallNet (x : Side) : TCPConnection :=
  (TCPConnection.new (smallCfg x) ⟨0⟩).get (smallCfg_isSome x)

theorem smallNet_new (x : Side) : TCPConnection.new (smallCfg x) ⟨0⟩ = some (smallNet x) :=
  (Option.some_get _).symm

def acked (seqno ackno : UInt32) (win : UInt16) : TCPHeader :=
  { seqno := ⟨seqno⟩, ack := true, ackno := ⟨ackno⟩, win }

/-- The handshake, opened by side A. -/
def handshake : List (Side × TCPConnection.Op) :=
  [(.A, .connect),
   (.B, .segmentReceived { header := { seqno := ⟨5⟩, syn := true, win := 4 } }),
   (.A, .segmentReceived { header := { acked 100 6 4 with syn := true } })]

/-- Side A sends a byte, which the network delivers twice, and side B reads it. -/
def byteTwice : List (Side × TCPConnection.Op) :=
  handshake ++ [(.A, .write [7]),
    (.B, .segmentReceived { header := acked 6 101 4, payload := [7] }),
    (.B, .segmentReceived { header := acked 6 101 4, payload := [7] }),
    (.B, .read 1)]

end Small

theorem delivered_isPrefix_twice :
    machine.Admits smallNet byteTwice ∧
      machine.collect (readOut .B) smallNet byteTwice ++
          (machine.run smallNet byteTwice .B).inboundStream.contents <+:
        machine.collect (accepted .A) smallNet byteTwice :=
  ⟨by decide +kernel, delivered_isPrefix smallNet_new (by decide +kernel)
    (fun z => by cases z <;> decide +kernel) .A⟩

end Network
end Sponge
