import Sponge.TCPSegment
import Sponge.Tilings

/-!
# The TCP sender

The sender cuts its byte stream into segments, keeps those not yet acknowledged
in a priority queue with the lowest sequence number on top, and retransmits the
top one when its timer expires. Absolute sequence numbers and byte counts, which
the source keeps in 64 bits and which grow only with bytes really sent, are
naturals; the remaining window, the timer and the 32-bit fields wrap as in the
source.
-/
namespace Sponge
open MachineWords

structure OrderedSegment where
  absSeqno : ℕ
  seg : TCPSegment
  deriving DecidableEq

namespace OrderedSegment

def length (t : OrderedSegment) : ℕ := t.seg.lengthInSequenceSpace

/-- `priority_queue::push`; the list is kept in the order in which `top` yields it. -/
def enqueue (queue : List OrderedSegment) (t : OrderedSegment) : List OrderedSegment :=
  queue.orderedInsert (fun a b => a.absSeqno ≤ b.absSeqno) t

end OrderedSegment

def maxPayloadSize : ℕ := 1000

structure TCPSender where
  isn : WrappingInt32
  segmentsOut : List TCPSegment
  initialRetransmissionTimeout : ℕ
  stream : ByteStream
  nextSeqno : ℕ
  segmentsInFlight : List OrderedSegment
  syn : Bool
  fin : Bool
  isTimerRunning : Bool
  timeSpent : ℕ
  rwnd : ℕ
  bytesInFlight : ℕ
  checkpoint : ℕ
  nConsecutiveRetransmissions : ℕ
  rto : ℕ
  deriving DecidableEq

namespace TCPSender

/-- `random` is what the random device would return; it is used without a fixed number. -/
def new (capacity : ℕ) (retxTimeout : UInt16) (fixedIsn : Option WrappingInt32)
    (random : WrappingInt32) : Option TCPSender := do
  let stream ← ByteStream.new capacity
  pure {
    isn := fixedIsn.getD random
    segmentsOut := []
    initialRetransmissionTimeout := retxTimeout.toNat
    stream
    nextSeqno := 0
    segmentsInFlight := []
    syn := false
    fin := false
    isTimerRunning := false
    timeSpent := 0
    rwnd := 1
    bytesInFlight := 0
    checkpoint := 0
    nConsecutiveRetransmissions := 0
    rto := 0 }

theorem new_eq_some {capacity : ℕ} {retxTimeout : UInt16} {fixedIsn : Option WrappingInt32}
    {random : WrappingInt32} {s : TCPSender}
    (h : new capacity retxTimeout fixedIsn random = some s) :
    ∃ stream, ByteStream.new capacity = some stream ∧
      s = ⟨fixedIsn.getD random, [], retxTimeout.toNat, stream, 0, [], false, false, false, 0, 1, 0,
        0, 0, 0⟩ := by
  simp only [new, Option.bind_eq_bind, Option.bind_eq_some_iff] at h
  obtain ⟨stream, hstream, hs⟩ := h
  exact ⟨stream, hstream, (Option.some.inj hs).symm⟩

/-- The segment with the sequence number it is sent under. -/
def stamp (s : TCPSender) (seg : TCPSegment) : TCPSegment :=
  { seg with header := { seg.header with seqno := wrap s.nextSeqno s.isn } }

def sendSegment (s : TCPSender) (newSegment : TCPSegment) : TCPSender :=
  let seg := s.stamp newSegment
  let s := { s with
    segmentsOut := s.segmentsOut ++ [seg]
    segmentsInFlight := OrderedSegment.enqueue s.segmentsInFlight ⟨s.nextSeqno, seg⟩
    nextSeqno := s.nextSeqno + seg.lengthInSequenceSpace
    bytesInFlight := s.bytesInFlight + seg.lengthInSequenceSpace }
  if s.isTimerRunning then s
  else { s with
    isTimerRunning := true
    timeSpent := 0
    rto := s.initialRetransmissionTimeout }

def sendSYN (s : TCPSender) : TCPSender :=
  { s.sendSegment { header := { syn := true } } with syn := true }

def payloadSize (n : ℕ) : ℕ := if maxPayloadSize < n then maxPayloadSize else n

/-- The stream has something for the body of the loop to send. -/
def hasPending (s : TCPSender) : Bool := s.stream.eof || !s.stream.bufferEmpty

/-- The body of the loop of `fill_window`, with `n` for `n_bytes_can_send`. -/
def fillStep (s : TCPSender) (n : ℕ) : TCPSender × ℕ :=
  let (payload, stream) := s.stream.read (payloadSize n)
  let s := { s with stream }
  let newSegment : TCPSegment := { payload }
  if stream.eof && decide (newSegment.lengthInSequenceSpace < n) then
    ({ s with fin := true }.sendSegment { newSegment with header := { fin := true } },
      subMod 64 (n - 1) (payloadSize n))
  else (s.sendSegment newSegment, subMod 64 n (payloadSize n))

/-- The loop of `fill_window`. Each turn takes a byte from the stream or sends the FIN, so
one turn more than there are bytes is enough. -/
def fillLoop : ℕ → TCPSender → ℕ → TCPSender
  | 0, s, _ => s
  | fuel + 1, s, n =>
    if n = 0 ∨ s.fin then s
    else if s.hasPending then fillLoop fuel (s.fillStep n).1 (s.fillStep n).2
    else s

/-- `n_bytes_can_send` before the loop; the subtraction is unsigned. -/
def remainingWindow (s : TCPSender) : ℕ :=
  subMod 64 (if 0 < s.rwnd then s.rwnd else 1) (s.nextSeqno - s.checkpoint)

def fillWindow (s : TCPSender) : TCPSender :=
  if !s.syn then s.sendSYN
  else fillLoop (s.stream.bufferSize + 1) s s.remainingWindow

/-- The loop of `ack_received`: the queue and the byte count without what is acknowledged. -/
def dropAcked (absAckno : ℕ) : List OrderedSegment → ℕ → List OrderedSegment × ℕ
  | [], bytes => ([], bytes)
  | t :: ts, bytes =>
    if t.absSeqno + t.length ≤ absAckno then dropAcked absAckno ts (bytes - t.length)
    else (t :: ts, bytes)

/-- What a new acknowledgment changes before the window is filled again. -/
def acknowledge (s : TCPSender) (absAckno : ℕ) : TCPSender :=
  let (queue, bytes) := dropAcked absAckno s.segmentsInFlight s.bytesInFlight
  let s := { s with
    checkpoint := absAckno
    segmentsInFlight := queue
    bytesInFlight := bytes
    rto := s.initialRetransmissionTimeout
    nConsecutiveRetransmissions := 0 }
  if queue = [] then s else { s with timeSpent := 0, isTimerRunning := true }

def ackReceived (s : TCPSender) (ackno : WrappingInt32) (windowSize : UInt16) : TCPSender :=
  let absAckno := unwrap ackno s.isn s.checkpoint
  let s := { s with rwnd := windowSize.toNat }
  if s.nextSeqno < absAckno then s
  else if absAckno ≤ s.checkpoint then s
  else (s.acknowledge absAckno).fillWindow

/-- The first half of `tick`, which retransmits the top of the queue when the time is up. -/
def retransmit (s : TCPSender) : TCPSender :=
  match s.segmentsInFlight with
  | [] => s
  | t :: _ =>
    if s.rto ≤ s.timeSpent then
      let s := { s with segmentsOut := s.segmentsOut ++ [t.seg], timeSpent := 0 }
      if 0 < s.rwnd then { s with
        nConsecutiveRetransmissions := addMod 32 s.nConsecutiveRetransmissions 1
        rto := s.rto * 2 % 2 ^ 32 }
      else s
    else s

def tick (s : TCPSender) (ms : ℕ) : TCPSender :=
  let s := { s with timeSpent := addMod 64 s.timeSpent ms }.retransmit
  if s.segmentsInFlight = [] then { s with timeSpent := 0, isTimerRunning := false } else s

/-- An empty segment at the next sequence number. -/
def emptySegment (s : TCPSender) : TCPSegment := s.stamp {}

def sendEmptySegment (s : TCPSender) : TCPSender :=
  { s with segmentsOut := s.segmentsOut ++ [s.emptySegment] }

def writeStream (s : TCPSender) (data : List Byte) : TCPSender :=
  { s with stream := s.stream.write data }

def endStream (s : TCPSender) : TCPSender := { s with stream := s.stream.endInput }

/-- The operations on a sender, in the order of the class. -/
inductive Op where
  | write (data : List Byte)
  | endInput
  | fillWindow
  | ackReceived (ackno : WrappingInt32) (windowSize : UInt16)
  | tick (ms : ℕ)
  | sendEmptySegment
  deriving DecidableEq

def step (s : TCPSender) : Op → TCPSender
  | .write data => s.writeStream data
  | .endInput => s.endStream
  | .fillWindow => s.fillWindow
  | .ackReceived ackno windowSize => s.ackReceived ackno windowSize
  | .tick ms => s.tick ms
  | .sendEmptySegment => s.sendEmptySegment

/-- The segments an operation pushes to `segments_out`. -/
def emitted (s : TCPSender) (op : Op) : List TCPSegment :=
  (s.step op).segmentsOut.drop s.segmentsOut.length

/-- The new tiles of an operation: what its call of `fill_window` pushes. -/
def newTiles (s : TCPSender) : Op → List TCPSegment
  | .fillWindow => s.emitted .fillWindow
  | .ackReceived ackno windowSize => s.emitted (.ackReceived ackno windowSize)
  | _ => []

/-- The bytes `stream_in()` accepts in an operation. -/
def accepted (s : TCPSender) : Op → List Byte
  | .write data => data.take (s.stream.writeSize data)
  | _ => []

end TCPSender
end Sponge
