import Sponge.TCPReceiver
import Sponge.TCPSender

/-!
# A TCP endpoint

The connection feeds arriving segments to its receiver and its sender, and moves
what the sender has to say to its own output queue with the receiver's
acknowledgment on it. The queue is never drained here: it is everything the
endpoint ever emitted.
-/
namespace Sponge
open MachineWords

structure TCPConfig where
  rtTimeout : UInt16 := 1000
  recvCapacity : ℕ := 64000
  sendCapacity : ℕ := 64000
  fixedIsn : Option WrappingInt32 := none
  deriving DecidableEq

def maxRetxAttempts : ℕ := 8

structure TCPConnection where
  cfg : TCPConfig
  receiver : TCPReceiver
  sender : TCPSender
  segmentsOut : List TCPSegment
  lingerAfterStreamsFinish : Bool
  timeSinceLastSegmentReceived : ℕ
  isActive : Bool
  sentSYN : Bool
  deriving DecidableEq

namespace TCPConnection

def new (cfg : TCPConfig) (random : WrappingInt32) : Option TCPConnection := do
  let receiver ← TCPReceiver.new cfg.recvCapacity
  let sender ← TCPSender.new cfg.sendCapacity cfg.rtTimeout cfg.fixedIsn random
  pure {
    cfg
    receiver
    sender
    segmentsOut := []
    lingerAfterStreamsFinish := true
    timeSinceLastSegmentReceived := 0
    isActive := true
    sentSYN := false }

theorem new_eq_some {cfg : TCPConfig} {random : WrappingInt32} {c : TCPConnection}
    (h : new cfg random = some c) :
    ∃ receiver sender, TCPReceiver.new cfg.recvCapacity = some receiver ∧
      TCPSender.new cfg.sendCapacity cfg.rtTimeout cfg.fixedIsn random = some sender ∧
      c = ⟨cfg, receiver, sender, [], true, 0, true, false⟩ := by
  simp only [new, Option.bind_eq_bind, Option.bind_eq_some_iff] at h
  obtain ⟨receiver, hv, sender, hs, hc⟩ := h
  exact ⟨receiver, sender, hv, hs, (Option.some.inj hc).symm⟩

def inboundStream (c : TCPConnection) : ByteStream := c.receiver.streamOut

def cleanShutdown (c : TCPConnection) : TCPConnection :=
  let c := if c.receiver.streamOut.inputEnded && !c.sender.stream.eof then
    { c with lingerAfterStreamsFinish := false } else c
  if c.receiver.streamOut.inputEnded && c.receiver.unassembledBytes == 0 &&
      c.sender.stream.inputEnded && c.sender.bytesInFlight == 0 &&
      (!c.lingerAfterStreamsFinish ||
        decide (10 * c.cfg.rtTimeout.toNat ≤ c.timeSinceLastSegmentReceived)) then
    { c with isActive := false }
  else c

theorem cleanShutdown_eq (c : TCPConnection) :
    c.cleanShutdown = { c with
      lingerAfterStreamsFinish := c.cleanShutdown.lingerAfterStreamsFinish
      isActive := c.cleanShutdown.isActive } := by
  simp only [cleanShutdown]
  split <;> split <;> rfl

/-- A segment as it leaves the endpoint, with the receiver's acknowledgment and window. The
window is cut to the 16 bits of its field. -/
def dress (v : TCPReceiver) (rst : Bool) (seg : TCPSegment) : TCPSegment :=
  let header := match v.ackno with
    | some ackno => { seg.header with ack := true, ackno }
    | none => seg.header
  let header := { header with win := UInt16.ofNat v.windowSize }
  { seg with header := if rst then { header with rst := true } else header }

/-- The loop of `_send_segments`; a reset goes on the last segment. -/
def dressAll (v : TCPReceiver) (setRst : Bool) : List TCPSegment → List TCPSegment
  | [] => []
  | seg :: rest => dress v (setRst && rest.isEmpty) seg :: dressAll v setRst rest

/-- `_send_segments` up to its last statement. -/
def transmit (c : TCPConnection) (setRst : Bool) : TCPConnection :=
  let sender := c.sender.fillWindow
  { c with
    sender := { sender with segmentsOut := [] }
    sentSYN := true
    segmentsOut := c.segmentsOut ++ dressAll c.receiver setRst sender.segmentsOut }

def sendSegments (c : TCPConnection) (setRst : Bool) : TCPConnection :=
  (c.transmit setRst).cleanShutdown

def killConnection (c : TCPConnection) : TCPConnection :=
  { c with
    sender := { c.sender with stream := c.sender.stream.setError }
    receiver := c.receiver.setError
    isActive := false }

def sendEmptySegment (c : TCPConnection) : TCPConnection :=
  { c with sender := c.sender.sendEmptySegment }

def uncleanShutdown (c : TCPConnection) : TCPConnection :=
  let c := c.killConnection
  let c := if c.sender.segmentsOut = [] then c.sendEmptySegment else c
  c.sendSegments true

/-- The segment goes to the receiver and its acknowledgment to the sender. -/
def takeIn (c : TCPConnection) (seg : TCPSegment) : TCPConnection :=
  let c := { c with receiver := c.receiver.segmentReceived seg }
  if seg.header.ack then
    { c with sender := c.sender.ackReceived seg.header.ackno seg.header.win }
  else c

def segmentReceived (c : TCPConnection) (seg : TCPSegment) : TCPConnection :=
  let c := { c with timeSinceLastSegmentReceived := 0 }
  if seg.header.rst then c.killConnection
  else if !c.sentSYN && seg.header.ack then c
  else
    let c := c.takeIn seg
    let c := if (seg.header.syn && c.sentSYN) || seg.header.fin || seg.payload.length != 0 then
      c.sendEmptySegment else c
    c.sendSegments false

def write (c : TCPConnection) (data : List Byte) : TCPConnection :=
  { c with sender := c.sender.writeStream data }.sendSegments false

def tick (c : TCPConnection) (ms : ℕ) : TCPConnection :=
  let c := { c with
    sender := c.sender.tick ms
    timeSinceLastSegmentReceived := addMod 64 c.timeSinceLastSegmentReceived ms }
  let c := if maxRetxAttempts < c.sender.nConsecutiveRetransmissions then c.uncleanShutdown else c
  if c.sentSYN then c.sendSegments false else c

def endInputStream (c : TCPConnection) : TCPConnection :=
  { c with sender := c.sender.endStream }.sendSegments false

def connect (c : TCPConnection) : TCPConnection := c.sendSegments false

/-- The calls of the owner; reads and pops go through `inbound_stream()`. -/
inductive Op where
  | segmentReceived (seg : TCPSegment)
  | write (data : List Byte)
  | tick (ms : ℕ)
  | endInputStream
  | connect
  | read (len : ℕ)
  | pop (len : ℕ)
  deriving DecidableEq

def step (c : TCPConnection) : Op → TCPConnection
  | .segmentReceived seg => c.segmentReceived seg
  | .write data => c.write data
  | .tick ms => c.tick ms
  | .endInputStream => c.endInputStream
  | .connect => c.connect
  | .read len => { c with receiver := (c.receiver.read len).2 }
  | .pop len => { c with receiver := c.receiver.popOutput len }

/-- The bytes `write` accepts. -/
def accepted (c : TCPConnection) : Op → List Byte
  | .write data => data.take (c.sender.stream.writeSize data)
  | _ => []

/-- The bytes taken out of the inbound stream. -/
def removed (c : TCPConnection) : Op → List Byte
  | .read len => (c.receiver.read len).1
  | .pop len => c.inboundStream.peekOutput len
  | _ => []

/-- The segment reaches the receiver: it is no reset, and no acknowledgment before the SYN. -/
def Takes (c : TCPConnection) (seg : TCPSegment) : Prop :=
  seg.header.rst = false ∧ (c.sentSYN = true ∨ seg.header.ack = false)

instance (c : TCPConnection) (seg : TCPSegment) : Decidable (c.Takes seg) :=
  inferInstanceAs (Decidable (_ ∧ _))

/-- What a call does first, before the endpoint sends anything. -/
def prelude (c : TCPConnection) : Op → TCPConnection
  | .segmentReceived seg =>
    let c := { c with timeSinceLastSegmentReceived := 0 }
    if seg.header.rst || !c.sentSYN && seg.header.ack then c
    else c.takeIn seg
  | .write data => { c with sender := c.sender.writeStream data }
  | .tick ms => { c with
      sender := c.sender.tick ms
      timeSinceLastSegmentReceived := addMod 64 c.timeSinceLastSegmentReceived ms }
  | .endInputStream => { c with sender := c.sender.endStream }
  | .connect => c
  | .read len => { c with receiver := (c.receiver.read len).2 }
  | .pop len => { c with receiver := c.receiver.popOutput len }

theorem takeIn_receiver (c : TCPConnection) (seg : TCPSegment) :
    (c.takeIn seg).receiver = c.receiver.segmentReceived seg := by
  simp only [takeIn]
  split <;> rfl

theorem takeIn_sender (c : TCPConnection) (seg : TCPSegment) :
    (c.takeIn seg).sender = if seg.header.ack then
      c.sender.ackReceived seg.header.ackno seg.header.win else c.sender := by
  simp only [takeIn]
  split <;> rfl

theorem takeIn_segmentsOut (c : TCPConnection) (seg : TCPSegment) :
    (c.takeIn seg).segmentsOut = c.segmentsOut := by
  simp only [takeIn]
  split <;> rfl

theorem takeIn_isActive (c : TCPConnection) (seg : TCPSegment) :
    (c.takeIn seg).isActive = c.isActive := by
  simp only [takeIn]
  split <;> rfl

/-- A segment is passed over or taken in; either way the clock restarts. -/
theorem prelude_segmentReceived (c : TCPConnection) (seg : TCPSegment) :
    ¬ c.Takes seg ∧
        c.prelude (.segmentReceived seg) = { c with timeSinceLastSegmentReceived := 0 } ∨
      c.Takes seg ∧ c.prelude (.segmentReceived seg) =
        { c with timeSinceLastSegmentReceived := 0 }.takeIn seg := by
  have hiff : (seg.header.rst || !c.sentSYN && seg.header.ack) = true ↔ ¬ c.Takes seg := by
    rw [Takes]
    cases seg.header.rst <;> cases c.sentSYN <;> cases seg.header.ack <;> decide
  simp only [prelude, hiff]
  by_cases htakes : c.Takes seg
  · exact Or.inr ⟨htakes, if_neg (not_not_intro htakes)⟩
  · exact Or.inl ⟨htakes, if_pos htakes⟩

/-- A call sends nothing in its first part. -/
theorem prelude_segmentsOut (c : TCPConnection) (op : Op) :
    (c.prelude op).segmentsOut = c.segmentsOut := by
  cases op with
  | segmentReceived seg =>
    rcases c.prelude_segmentReceived seg with ⟨-, heq⟩ | ⟨-, heq⟩
    · rw [heq]
    · rw [heq, takeIn_segmentsOut]
  | _ => rfl

theorem prelude_isActive (c : TCPConnection) (op : Op) :
    (c.prelude op).isActive = c.isActive := by
  cases op with
  | segmentReceived seg =>
    rcases c.prelude_segmentReceived seg with ⟨-, heq⟩ | ⟨-, heq⟩
    · rw [heq]
    · rw [heq, takeIn_isActive]
  | _ => rfl

section Calls
variable {c : TCPConnection} {seg : TCPSegment} {ms : ℕ}

theorem segmentReceived_of_rst (hrst : seg.header.rst = true) :
    c.segmentReceived seg = { c with timeSinceLastSegmentReceived := 0 }.killConnection := by
  simp only [segmentReceived, hrst, if_true]

theorem segmentReceived_of_not_takes (hrst : seg.header.rst = false) (htakes : ¬ c.Takes seg) :
    c.segmentReceived seg = { c with timeSinceLastSegmentReceived := 0 } := by
  have hdrop : (!c.sentSYN && seg.header.ack) = true := by
    simp only [Takes, hrst, true_and, not_or, Bool.not_eq_true, Bool.not_eq_false] at htakes
    simp [htakes]
  simp only [segmentReceived, hrst, hdrop, if_true, Bool.false_eq_true, if_false]

/-- The segment is answered even if there is nothing to send. -/
def provokes (c : TCPConnection) (seg : TCPSegment) : Bool :=
  (seg.header.syn && c.sentSYN) || seg.header.fin || seg.payload.length != 0

theorem segmentReceived_of_takes (htakes : c.Takes seg) :
    c.segmentReceived seg =
      (if c.provokes seg then
        ({ c with timeSinceLastSegmentReceived := 0 }.takeIn seg).sendEmptySegment
      else { c with timeSinceLastSegmentReceived := 0 }.takeIn seg).sendSegments false := by
  obtain ⟨hrst, hsent⟩ := htakes
  have hdrop : (!c.sentSYN && seg.header.ack) = false := by
    rcases hsent with hsent | hack
    · simp [hsent]
    · simp [hack]
  have hsame : ({ c with timeSinceLastSegmentReceived := 0 }.takeIn seg).sentSYN = c.sentSYN := by
    simp only [takeIn]
    split <;> rfl
  simp only [segmentReceived, hrst, hdrop, Bool.false_eq_true, if_false, hsame, provokes]
  rfl

theorem tick_of_exhausted
    (hretx : maxRetxAttempts < (c.sender.tick ms).nConsecutiveRetransmissions) :
    c.tick ms = (c.prelude (.tick ms)).uncleanShutdown.sendSegments false := by
  have hsent : ∀ d : TCPConnection, d.uncleanShutdown.sentSYN = true := by
    intro d
    simp only [uncleanShutdown, sendSegments]
    split <;> rw [cleanShutdown_eq] <;> rfl
  simp only [tick, hretx, if_true, hsent]
  rfl

theorem tick_of_not_exhausted
    (hretx : ¬ maxRetxAttempts < (c.sender.tick ms).nConsecutiveRetransmissions) :
    c.tick ms = if c.sentSYN then (c.prelude (.tick ms)).sendSegments false
      else c.prelude (.tick ms) := by
  simp only [tick, hretx, if_false]
  rfl

end Calls

/-- The actions every call is put together from. -/
inductive Move (c : TCPConnection) : TCPConnection → Prop
  | send (setRst : Bool) : Move c (c.sendSegments setRst)
  | kill : Move c c.killConnection
  | empty : Move c c.sendEmptySegment

/-- What every action keeps holds after a call if it holds after the call's first part. -/
theorem step_induct {I : TCPConnection → Prop} (hmove : ∀ c d, Move c d → I c → I d)
    {c : TCPConnection} {op : Op} (h : I (c.prelude op)) : I (c.step op) := by
  cases op with
  | segmentReceived seg =>
    change I (c.segmentReceived seg)
    rw [prelude] at h
    rw [segmentReceived]
    dsimp only at h ⊢
    cases hrst : seg.header.rst with
    | true =>
      rw [hrst] at h
      exact hmove _ _ .kill h
    | false =>
      rw [hrst, Bool.false_or] at h
      by_cases hdrop : (!c.sentSYN && seg.header.ack) = true
      · rw [if_pos hdrop] at h ⊢
        exact h
      · rw [if_neg hdrop] at h ⊢
        generalize takeIn _ seg = e at h ⊢
        simp only [Bool.false_eq_true, if_false]
        split
        · exact hmove _ _ (.send false) (hmove _ _ .empty h)
        · exact hmove _ _ (.send false) h
  | write data => exact hmove _ _ (.send false) h
  | tick ms =>
    change I (c.tick ms)
    unfold tick
    change I { c with
      sender := c.sender.tick ms
      timeSinceLastSegmentReceived := addMod 64 c.timeSinceLastSegmentReceived ms } at h
    generalize ({ c with
      sender := c.sender.tick ms
      timeSinceLastSegmentReceived := addMod 64 c.timeSinceLastSegmentReceived ms } :
        TCPConnection) = d at h ⊢
    have hgiveup : I d.uncleanShutdown := by
      have hkill := hmove _ _ .kill h
      simp only [uncleanShutdown]
      split
      · exact hmove _ _ (.send true) (hmove _ _ .empty hkill)
      · exact hmove _ _ (.send true) hkill
    dsimp only
    split
    · split
      · exact hmove _ _ (.send false) hgiveup
      · exact hgiveup
    · split
      · exact hmove _ _ (.send false) h
      · exact h
  | endInputStream => exact hmove _ _ (.send false) h
  | connect => exact hmove _ _ (.send false) h
  | read len => exact h
  | pop len => exact h

end TCPConnection
end Sponge
