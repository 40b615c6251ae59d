import Sponge.ByteStreamRuns
import Sponge.EventLoop

/-!
# Copying between a socket and the standard streams

`bidirectional_stream_copy` copies standard input to a socket, and the socket to standard output,
each through a byte stream of its own. A direction of the copy has two rules of the event loop: one
reads its source into the stream, one writes the stream to its sink and, at the end of the stream,
ends the sink.

`Direct` is what holds of a direction at any time. It speaks of the rules that are left: a stream
that is ended gets no more bytes, because the rule that reads the source is gone or its source is at
the end.
-/
namespace Sponge
open MachineWords

namespace BidirectionalStreamCopy

def maxCopyLength : ℕ := 65536

def bufferSize : ℕ := 1048576

/-- How a sink is ended: `shutdown(SHUT_WR)` for the socket, `close` for standard output. -/
inductive Ending where
  | shutdown
  | close

def Ending.finish : Ending → FileDescriptor → Kernel → Except String FileDescriptor
  | .shutdown, f, k => f.shutdownWr k
  | .close, f, k => f.close k

def Ending.finished : Ending → FileDescriptor → Bool
  | .shutdown, f => f.shutWr
  | .close, f => f.wrapper.closed

/-- The callback of the rules that read. -/
def readInto (source : FileDescriptor) (stream : ByteStream) (k : Kernel) :
    Except String (FileDescriptor × ByteStream) := do
  let (data, source) ← source.read stream.remainingCapacity k
  let stream := stream.write data
  return (source, if source.wrapper.eof then stream.endInput else stream)

/-- The bytes a write is made of. -/
def offered (stream : ByteStream) : List Byte :=
  let bytesToWrite := min maxCopyLength stream.bufferSize
  stream.peekOutput bytesToWrite

/-- The callback of the rules that write. -/
def writeFrom (ending : Ending) (stream : ByteStream) (sink : FileDescriptor) (shutdown : Bool)
    (k : Kernel) : Except String (ByteStream × FileDescriptor × Bool) := do
  let (bytesWritten, sink) ← sink.writeSome (offered stream) k
  let stream := stream.popOutput bytesWritten
  if stream.eof then do
    let sink ← ending.finish sink k
    return (stream, sink, true)
  else return (stream, sink, shutdown)

structure State where
  input : FileDescriptor
  output : FileDescriptor
  socket : FileDescriptor
  outbound : ByteStream
  inbound : ByteStream
  outboundShutdown : Bool := false
  inboundShutdown : Bool := false

inductive Descriptor where
  | input
  | output
  | socket

/-- The rules, in the order in which they are added. -/
inductive RuleName where
  | stdinIn
  | socketOut
  | socketIn
  | stdoutOut
  deriving DecidableEq

def rule : RuleName → Rule State Descriptor Kernel
  | .stdinIn =>
    { fd := .input
      direction := .In
      callback := fun k s => do
        let (input, outbound) ← readInto s.input s.outbound k
        return { s with input, outbound }
      interest := fun s =>
        !s.outbound.error && decide (0 < s.outbound.remainingCapacity) && !s.inbound.error
      cancel := fun s => .ok { s with outbound := s.outbound.endInput } }
  | .socketOut =>
    { fd := .socket
      direction := .Out
      callback := fun k s => do
        let (outbound, socket, outboundShutdown) ←
          writeFrom .shutdown s.outbound s.socket s.outboundShutdown k
        return { s with outbound, socket, outboundShutdown }
      interest := fun s => !s.outbound.bufferEmpty || (s.outbound.eof && !s.outboundShutdown)
      cancel := fun s => .ok { s with outbound := s.outbound.endInput } }
  | .socketIn =>
    { fd := .socket
      direction := .In
      callback := fun k s => do
        let (socket, inbound) ← readInto s.socket s.inbound k
        return { s with socket, inbound }
      interest := fun s =>
        !s.inbound.error && decide (0 < s.inbound.remainingCapacity) && !s.outbound.error
      cancel := fun s => .ok { s with inbound := s.inbound.endInput } }
  | .stdoutOut =>
    { fd := .output
      direction := .Out
      callback := fun k s => do
        let (inbound, output, inboundShutdown) ←
          writeFrom .close s.inbound s.output s.inboundShutdown k
        return { s with inbound, output, inboundShutdown }
      interest := fun s => !s.inbound.bufferEmpty || (s.inbound.eof && !s.inboundShutdown)
      cancel := fun s => .ok { s with inbound := s.inbound.endInput } }

def eventLoop : EventLoop RuleName State Descriptor Kernel where
  descriptor := fun s fd =>
    match fd with
    | .input => s.input.wrapper
    | .output => s.output.wrapper
    | .socket => s.socket.wrapper
  rule := rule

/-- A call of the function, from one turn of its loop to the next. -/
structure Copy where
  state : State
  rules : List RuleName
  returned : Bool := false

def allRules : List RuleName := [.stdinIn, .socketOut, .socketIn, .stdoutOut]

/-- What went through the socket before the call is left out. -/
def start (socket : FDWrapper) : Option Copy := do
  let outbound ← ByteStream.new bufferSize
  let inbound ← ByteStream.new bufferSize
  return ⟨{ input := {}, output := {}, socket := { wrapper := socket }, outbound, inbound },
    allRules, false⟩

/-- A turn of the loop, which returns on `Exit`. -/
def Copy.turn (c : Copy) (poll : Poll RuleName Kernel) : Except String Copy :=
  if c.returned then .ok c
  else do
    let (result, rules, state) ← eventLoop.waitNextEvent c.rules c.state poll
    return ⟨state, rules, decide (result = .exit)⟩

def Copy.run (c : Copy) (polls : List (Poll RuleName Kernel)) : Except String Copy :=
  polls.foldlM Copy.turn c

section Direct
variable {H : Prop} {ending : Ending} {reads writes : Prop} {source sink : FileDescriptor}
  {stream : ByteStream} {shutdown : Bool} {k : Kernel}

/-- One direction of the copy, when the rules that read the source and write the sink are left as
`reads` and `writes` say. A rule may have been cancelled by a hangup only if `H` holds. -/
structure Direct (H : Prop) (ending : Ending) (reads writes : Prop) (source sink : FileDescriptor)
    (stream : ByteStream) (shutdown : Bool) : Prop where
  wf : stream.Wf
  capacity_eq : stream.capacity = bufferSize
  error_eq : stream.error = false
  conserved : sink.sent ++ stream.contents = source.received
  source_open : source.wrapper.closed = false
  -- bytes that come after the end of the stream are never written out
  ended : stream.isInputEnded = true → reads →
    source.wrapper.eof = true ∨ ¬ writes ∧ shutdown = false
  gone : ¬ reads → stream.isInputEnded = true ∧ (source.wrapper.eof = true ∨ H)
  stopped : ¬ writes → shutdown = true ∨ H
  empty : shutdown = true → stream.isInputEnded = true ∧ stream.contents = []
  accepts : shutdown = false → sink.refusal = none
  finished : shutdown = true → ending.finished sink = true

theorem length_offered_le (stream : ByteStream) : (offered stream).length ≤ maxCopyLength := by
  rw [offered, ByteStream.peekOutput, List.length_take]
  omega

theorem length_offered_le_endOfBuffer (stream : ByteStream) :
    (offered stream).length ≤ stream.endOfBuffer := by
  rw [offered, ByteStream.peekOutput, List.length_take, ByteStream.bufferSize]
  omega

theorem offered_eq (stream : ByteStream) :
    offered stream = stream.contents.take (offered stream).length := by
  rw [ByteStream.contents, List.take_take, Nat.min_eq_left (length_offered_le_endOfBuffer stream),
    offered, ByteStream.peekOutput, List.length_take, List.take_eq_take_iff]
  omega

theorem offered_fits (stream : ByteStream) : (offered stream).length ≤ stringMaxSize :=
  (length_offered_le stream).trans (by decide)

theorem readInto_eq_ok {source' : FileDescriptor} {stream' : ByteStream}
    (h : readInto source stream k = .ok (source', stream')) :
    ∃ data, data.length ≤ stream.remainingCapacity ∧ source' = { source with
        wrapper := source.wrapper.noteRead stream.remainingCapacity data
        received := source.received ++ data } ∧
      stream' =
        if source'.wrapper.eof then (stream.write data).endInput else stream.write data := by
  obtain ⟨⟨data, source₁⟩, hread, hret⟩ := bind_eq_ok h
  cases hret
  obtain ⟨hle, -, rfl⟩ := FileDescriptor.read_eq_ok hread
  exact ⟨data, hle, rfl, rfl⟩

/-- The sink after a write of the first `n` bytes. -/
def handed (stream : ByteStream) (sink : FileDescriptor) (n : ℕ) : FileDescriptor :=
  { sink with
    wrapper := sink.wrapper.registerWrite
    sent := sink.sent ++ (offered stream).take n }

theorem writeFrom_eq_ok {stream' : ByteStream} {sink' : FileDescriptor} {shutdown' : Bool}
    (h : writeFrom ending stream sink shutdown k = .ok (stream', sink', shutdown')) :
    ∃ n ≤ (offered stream).length, (offered stream ≠ [] → 0 < n) ∧ stream' = stream.popOutput n ∧
      (stream'.eof = true ∧ shutdown' = true ∧
          ending.finish (handed stream sink n) k = .ok sink' ∨
        stream'.eof = false ∧ shutdown' = shutdown ∧ sink' = handed stream sink n) := by
  obtain ⟨⟨n, sink₁⟩, hwrite, h⟩ := bind_eq_ok h
  obtain ⟨-, hle, hpos, rfl⟩ := FileDescriptor.writeSome_eq_ok (offered_fits stream) hwrite
  refine ⟨n, hle, hpos, ?_⟩
  dsimp only at h
  split at h
  · next heof =>
    obtain ⟨sink₂, hfinish, hret⟩ := bind_eq_ok h
    cases hret
    exact ⟨rfl, Or.inl ⟨heof, rfl, hfinish⟩⟩
  · next heof =>
    cases h
    exact ⟨rfl, Or.inr ⟨Bool.not_eq_true _ ▸ heof, rfl, rfl⟩⟩

theorem readInto_ok (hk : k.Honest) (source : FileDescriptor) (stream : ByteStream) :
    ∃ r, readInto source stream k = .ok r := by
  obtain ⟨data, source', hread⟩ := FileDescriptor.read_ok hk source stream.remainingCapacity
  simp only [readInto, hread]
  exact ⟨_, rfl⟩

theorem finish_ok (hk : k.Honest) (ending : Ending) (f : FileDescriptor) :
    ∃ f', ending.finish f k = .ok f' := by
  cases ending with
  | shutdown => exact FileDescriptor.shutdownWr_ok hk f
  | close => exact FileDescriptor.close_ok hk f

theorem writeFrom_ok (hk : k.Honest) (ending : Ending) (stream : ByteStream)
    (hopen : sink.refusal = none) (shutdown : Bool) :
    ∃ r, writeFrom ending stream sink shutdown k = .ok r := by
  obtain ⟨n, sink', hwrite⟩ := FileDescriptor.writeSome_ok hk hopen (offered_fits stream)
  obtain ⟨sink'', hfinish⟩ := finish_ok hk ending sink'
  simp only [writeFrom, hwrite, bind, Except.bind, hfinish]
  split
  · exact ⟨_, rfl⟩
  · exact ⟨_, rfl⟩

/-- To end a sink only marks it, and leaves what is read from it alone. -/
theorem finish_eq_ok {f f' : FileDescriptor} (h : ending.finish f k = .ok f') :
    ending.finished f' = true ∧ f'.sent = f.sent ∧ f'.received = f.received := by
  cases ending with
  | shutdown =>
    obtain rfl := FileDescriptor.shutdownWr_eq_ok h
    exact ⟨rfl, rfl, rfl⟩
  | close =>
    obtain rfl := FileDescriptor.close_eq_ok h
    exact ⟨rfl, rfl, rfl⟩

theorem Direct.of_new (h : ByteStream.new bufferSize = some stream) (hreads : reads)
    (hwrites : writes) (hsent : sink.sent = []) (hreceived : source.received = [])
    (hsource : source.wrapper.closed = false) (hsink : sink.refusal = none) :
    Direct H ending reads writes source sink stream false := by
  have hwf := ByteStream.wf_new h
  obtain ⟨-, rfl⟩ := ByteStream.new_eq_some h
  exact {
    wf := hwf
    capacity_eq := rfl
    error_eq := rfl
    conserved := by rw [hsent, hreceived, ByteStream.contents, List.take_zero]; rfl
    source_open := hsource
    ended := by rintro ⟨⟩
    gone := fun hnot => absurd hreads hnot
    stopped := fun hnot => absurd hwrites hnot
    empty := by rintro ⟨⟩
    accepts := fun _ => hsink
    finished := by rintro ⟨⟩ }

namespace Direct
variable (h : Direct H ending reads writes source sink stream shutdown)
include h

theorem capacity_lt : stream.capacity < 2 ^ 32 :=
  h.capacity_eq ▸ by decide

/-- A direction depends on the rules only through its own two, and on the descriptors only through
the reading side of its source and the writing side of its sink. -/
theorem congr {reads' writes' : Prop} {source' sink' : FileDescriptor} (hreads : reads' ↔ reads)
    (hwrites : writes' ↔ writes)
    (hsource : source'.received = source.received ∧ source'.wrapper.eof = source.wrapper.eof ∧
      source'.wrapper.closed = source.wrapper.closed)
    (hsink : sink'.sent = sink.sent ∧ sink'.refusal = sink.refusal ∧
      ending.finished sink' = ending.finished sink) :
    Direct H ending reads' writes' source' sink' stream shutdown := by
  obtain ⟨hreceived, heof, hclosed⟩ := hsource
  obtain ⟨hsent, hrefusal, hfinished⟩ := hsink
  obtain rfl := propext hreads
  obtain rfl := propext hwrites
  constructor
  · exact h.wf
  · exact h.capacity_eq
  · exact h.error_eq
  · rw [hsent, hreceived, h.conserved]
  · rw [hclosed, h.source_open]
  · rw [heof]
    exact h.ended
  · rw [heof]
    exact h.gone
  · exact h.stopped
  · exact h.empty
  · rw [hrefusal]
    exact h.accepts
  · rw [hfinished]
    exact h.finished

/-- A source that is not at its end is read only as long as the sink is not ended. -/
theorem shutdown_eq_false (hreads : reads) (heof : source.wrapper.eof = false) :
    shutdown = false := by
  by_contra hshut
  obtain ⟨hended, -⟩ := h.empty (by simpa using hshut)
  rcases h.ended hended hreads with hend | ⟨-, hnot⟩
  · rw [heof] at hend
    cases hend
  · exact hshut hnot

theorem readInto (hreads : reads) (heof : source.wrapper.eof = false) {source' : FileDescriptor}
    {stream' : ByteStream}
    (hread : BidirectionalStreamCopy.readInto source stream k = .ok (source', stream')) :
    Direct H ending reads writes source' sink stream' shutdown := by
  obtain ⟨data, hle, hsource, hstream⟩ := readInto_eq_ok hread
  have hshut := h.shutdown_eq_false hreads heof
  have hcontents : (stream.write data).contents = stream.contents ++ data := by
    rw [h.wf.contents_write (h.wf.word_of_capacity h.capacity_lt), ByteStream.writeSize,
      Nat.min_eq_left hle, List.take_length]
  have hframe := stream.write_frame data
  have hsame : stream'.Wf ∧ stream'.capacity = stream.capacity ∧ stream'.error = stream.error ∧
      stream'.contents = stream.contents ++ data ∧
      (stream'.isInputEnded = true → source'.wrapper.eof = true ∨ stream.isInputEnded = true) := by
    rw [hstream]
    split
    · next hend =>
      refine ⟨h.wf.write.endInput, ?_, ?_, hcontents, fun _ => Or.inl hend⟩
      · change (stream.write data).capacity = _
        rw [hframe]
      · change (stream.write data).error = _
        rw [hframe]
    · refine ⟨h.wf.write, ?_, ?_, hcontents, ?_⟩
      · rw [hframe]
      · rw [hframe]
      · rw [hframe]
        exact Or.inr
  obtain ⟨hwf, hcap, herror, hcontents, hended⟩ := hsame
  constructor
  · exact hwf
  · rw [hcap, h.capacity_eq]
  · rw [herror, h.error_eq]
  · rw [hcontents, ← List.append_assoc, h.conserved, hsource]
  · rw [hsource]
    exact h.source_open
  · intro hend _
    rcases hended hend with hend | hend
    · exact Or.inl hend
    · rcases h.ended hend hreads with hold | hstopped
      · rw [heof] at hold
        cases hold
      · exact Or.inr hstopped
  · exact fun hnot => absurd hreads hnot
  · exact h.stopped
  · rw [hshut]
    exact fun hno => by cases hno
  · exact h.accepts
  · exact h.finished

theorem writeFrom (hwrites : writes) (hshut : shutdown = false) {stream' : ByteStream}
    {sink' : FileDescriptor} {shutdown' : Bool}
    (hwrite : BidirectionalStreamCopy.writeFrom ending stream sink shutdown k =
      .ok (stream', sink', shutdown')) :
    Direct H ending reads writes source sink' stream' shutdown' := by
  obtain ⟨n, hle, -, rfl, hcases⟩ := writeFrom_eq_ok hwrite
  have hn := hle.trans (length_offered_le_endOfBuffer stream)
  have hwf := h.wf.popOutput hn
  have hsent : sink'.sent = sink.sent ++ stream.contents.take n := by
    have htake : (handed stream sink n).sent = sink.sent ++ stream.contents.take n := by
      rw [handed, offered_eq stream, List.take_take, Nat.min_eq_left hle]
    rcases hcases with ⟨-, -, hfinish⟩ | ⟨-, -, rfl⟩
    · rw [(finish_eq_ok hfinish).2.1, htake]
    · exact htake
  constructor
  · exact hwf
  · exact h.capacity_eq
  · exact h.error_eq
  · rw [hsent, h.wf.contents_popOutput hn, List.append_assoc, List.take_append_drop, h.conserved]
  · exact h.source_open
  · intro hend hreads
    rcases h.ended hend hreads with heof | ⟨hnot, -⟩
    · exact Or.inl heof
    · exact absurd hwrites hnot
  · exact h.gone
  · exact fun hnot => absurd hwrites hnot
  · intro hdone
    rcases hcases with ⟨heof, -, -⟩ | ⟨-, rfl, -⟩
    · rw [ByteStream.eof, Bool.and_eq_true] at heof
      exact ⟨heof.1, hwf.bufferEmpty_iff.mp heof.2⟩
    · rw [hshut] at hdone
      cases hdone
  · intro hopen
    rcases hcases with ⟨-, rfl, -⟩ | ⟨-, -, rfl⟩
    · cases hopen
    · exact h.accepts hshut
  · intro hdone
    rcases hcases with ⟨-, -, hfinish⟩ | ⟨-, rfl, -⟩
    · exact (finish_eq_ok hfinish).1
    · rw [hshut] at hdone
      cases hdone

/-- The stream ends when one of its rules is cancelled. -/
theorem endInput {reads' writes' : Prop} (hread : ¬ reads' → source.wrapper.eof = true ∨ H)
    (hwrite : ¬ writes' → shutdown = true ∨ H)
    (hended : reads' → source.wrapper.eof = true ∨ ¬ writes' ∧ shutdown = false) :
    Direct H ending reads' writes' source sink stream.endInput shutdown where
  wf := h.wf.endInput
  capacity_eq := h.capacity_eq
  error_eq := h.error_eq
  conserved := h.conserved
  source_open := h.source_open
  ended := fun _ => hended
  gone := fun hnot => ⟨rfl, hread hnot⟩
  stopped := hwrite
  empty := fun hdone => ⟨rfl, (h.empty hdone).2⟩
  accepts := h.accepts
  finished := h.finished

theorem cancelSource {reads' writes' : Prop} (hreads : ¬ reads') (hwrites : writes' ↔ writes)
    (hused : (source.wrapper.eof = true ∨ source.wrapper.closed = true) ∨ H) :
    Direct H ending reads' writes' source sink stream.endInput shutdown := by
  refine h.endInput (fun _ => ?_) (fun hnot => h.stopped (hwrites.not.mp hnot))
    (fun hr => absurd hr hreads)
  rw [h.source_open] at hused
  simpa using hused

/-- Without a hangup a sink is dropped only when it is closed, and then nothing is left to do. -/
theorem cancelSink {reads' writes' : Prop} (hreads : reads' ↔ reads) (hwrites : ¬ writes')
    (hwhy : sink.wrapper.closed = true ∨ H ∧ shutdown = false) :
    Direct H ending reads' writes' source sink stream.endInput shutdown := by
  have hwhy' : shutdown = true ∨ H ∧ shutdown = false := by
    rcases hwhy with hclosed | hhup
    · refine Or.inl (by_contra fun hnot => ?_)
      have hopen := h.accepts (by simpa using hnot)
      rw [FileDescriptor.refusal, if_pos hclosed] at hopen
      cases hopen
    · exact Or.inr hhup
  refine h.endInput (fun hnot => (h.gone (hreads.not.mp hnot)).2)
    (fun _ => hwhy'.imp_right And.left) (fun hr => ?_)
  rcases hwhy' with hshut | ⟨-, hshut⟩
  · rcases h.ended (h.empty hshut).1 (hreads.mp hr) with heof | ⟨-, hnot⟩
    · exact Or.inl heof
    · rw [hshut] at hnot
      cases hnot
  · exact Or.inr ⟨hwrites, hshut⟩

/-- Once the sink is ended there is nothing to write. -/
theorem shutdown_of_interest
    (hinterest : (!stream.bufferEmpty || (stream.eof && !shutdown)) = true) : shutdown = false := by
  by_contra hshut
  have hdone : shutdown = true := by simpa using hshut
  obtain ⟨-, hempty⟩ := h.empty hdone
  rw [h.wf.bufferEmpty_iff.mpr hempty, hdone] at hinterest
  simp at hinterest

/-- A direction whose rules want nothing is copied to its end, unless its sink hung up. -/
theorem copied (hreads : reads → stream.remainingCapacity = 0)
    (hwrites : writes → (!stream.bufferEmpty || (stream.eof && !shutdown)) = false) :
    sink.sent = source.received ∧ ending.finished sink = true ∧
      (source.wrapper.eof = true ∨ H) ∨ H ∧ ¬ writes := by
  have hdone : shutdown = true → sink.sent = source.received := by
    intro hshut
    rw [← h.conserved, (h.empty hshut).2, List.append_nil]
  by_cases hw : writes
  · obtain ⟨hempty, hshut⟩ := Bool.or_eq_false_iff.mp (hwrites hw)
    have hempty : stream.bufferEmpty = true := by simpa using hempty
    have hnot : ¬ reads := by
      intro hr
      have hroom := hreads hr
      rw [h.wf.remainingCapacity_eq, h.capacity_eq, beq_iff_eq.mp hempty] at hroom
      cases hroom
    obtain ⟨hended, heof⟩ := h.gone hnot
    have hshut : shutdown = true := by simpa [ByteStream.eof, hended, hempty] using hshut
    exact Or.inl ⟨hdone hshut, h.finished hshut, heof⟩
  · rcases h.stopped hw with hshut | hH
    · refine Or.inl ⟨hdone hshut, h.finished hshut, ?_⟩
      by_cases hr : reads
      · rcases h.ended (h.empty hshut).1 hr with heof | ⟨-, hnot⟩
        · exact Or.inl heof
        · rw [hshut] at hnot
          cases hnot
      · exact (h.gone hr).2
    · exact Or.inr ⟨hH, hw⟩

end Direct

end Direct

/-- Both directions, with the rules in `P` left. -/
def Sound (H : Prop) (P : RuleName → Prop) (s : State) : Prop :=
  Direct H .shutdown (P .stdinIn) (P .socketOut) s.input s.socket s.outbound s.outboundShutdown ∧
    Direct H .close (P .socketIn) (P .stdoutOut) s.socket s.output s.inbound s.inboundShutdown

/-- What the callback of a rule may count on: the source is not at its end, the sink not ended. -/
def Condition : RuleName → State → Prop
  | .stdinIn, s => s.input.wrapper.eof = false
  | .socketOut, s => s.outboundShutdown = false
  | .socketIn, s => s.socket.wrapper.eof = false
  | .stdoutOut, s => s.inboundShutdown = false

section Rules
variable {H : Prop} {source sink : FileDescriptor} {stream : ByteStream} {shutdown : Bool}
  {k : Kernel}

/-- Reading uses the descriptor once, and leaves its writing side alone. -/
theorem readInto_frame {source' : FileDescriptor} {stream' : ByteStream}
    (h : readInto source stream k = .ok (source', stream')) :
    source.wrapper.readCount ≠ source'.wrapper.readCount ∧ source'.sent = source.sent ∧
      source'.refusal = source.refusal ∧
      Ending.finished .shutdown source' = Ending.finished .shutdown source := by
  obtain ⟨data, -, rfl, -⟩ := readInto_eq_ok h
  exact ⟨(FDWrapper.addMod_one_ne source.wrapper.readCount).symm, rfl, rfl, rfl⟩

theorem writeFrom_writeCount {ending : Ending} {stream' : ByteStream} {sink' : FileDescriptor}
    {shutdown' : Bool}
    (h : writeFrom ending stream sink shutdown k = .ok (stream', sink', shutdown')) :
    sink.wrapper.writeCount ≠ sink'.wrapper.writeCount := by
  have hone := (FDWrapper.addMod_one_ne sink.wrapper.writeCount).symm
  obtain ⟨n, -, -, -, ⟨-, -, hfinish⟩ | ⟨-, -, rfl⟩⟩ := writeFrom_eq_ok h
  · cases ending with
    | shutdown =>
      obtain rfl := FileDescriptor.shutdownWr_eq_ok hfinish
      exact (FDWrapper.addMod_two_ne sink.wrapper.writeCount).symm
    | close =>
      obtain rfl := FileDescriptor.close_eq_ok hfinish
      exact hone
  · exact hone

/-- Writing to the socket and shutting it down for writing leave its reading side alone. -/
theorem writeFrom_frame {stream' : ByteStream} {sink' : FileDescriptor} {shutdown' : Bool}
    (h : writeFrom .shutdown stream sink shutdown k = .ok (stream', sink', shutdown')) :
    sink'.received = sink.received ∧ sink'.wrapper.eof = sink.wrapper.eof ∧
      sink'.wrapper.closed = sink.wrapper.closed := by
  obtain ⟨n, -, -, -, ⟨-, -, hfinish⟩ | ⟨-, -, rfl⟩⟩ := writeFrom_eq_ok h
  · obtain rfl := FileDescriptor.shutdownWr_eq_ok hfinish
    exact ⟨rfl, rfl, rfl⟩
  · exact ⟨rfl, rfl, rfl⟩

theorem liveKeeps (H : Prop) :
    eventLoop.LiveKeeps (fun _ _ => True) H (Sound H) Condition where
  interested := by
    intro P r s hs _ hused hinterest
    cases r with
    | stdinIn => exact Bool.eq_false_iff.mpr fun heof => hused (Or.inl ⟨rfl, heof⟩)
    | socketOut => exact hs.1.shutdown_of_interest hinterest
    | socketIn => exact Bool.eq_false_iff.mpr fun heof => hused (Or.inl ⟨rfl, heof⟩)
    | stdoutOut => exact hs.2.shutdown_of_interest hinterest
  cancel := by
    intro P r s s' hs _ hwhy hcancel
    have hother (q : RuleName) (hne : q ≠ r) : P q ∧ q ≠ r ↔ P q := and_iff_left hne
    have hself : ¬ (P r ∧ r ≠ r) := fun hr => hr.2 rfl
    cases r with
    | stdinIn =>
      cases hcancel
      have hused : (s.input.wrapper.eof = true ∨ s.input.wrapper.closed = true) ∨ H :=
        hwhy.imp (Or.imp_left And.right) And.left
      refine ⟨⟨hs.1.cancelSource hself (hother _ (by decide)) hused,
        hs.2.congr (hother _ (by decide)) (hother _ (by decide)) ⟨rfl, rfl, rfl⟩ ⟨rfl, rfl, rfl⟩⟩,
        fun q _ hq => ?_⟩
      cases q <;> exact hq
    | socketOut =>
      cases hcancel
      refine ⟨⟨hs.1.cancelSink (hother _ (by decide)) hself (hwhy.imp_left ?_),
        hs.2.congr (hother _ (by decide)) (hother _ (by decide)) ⟨rfl, rfl, rfl⟩ ⟨rfl, rfl, rfl⟩⟩,
        fun q _ hq => ?_⟩
      · rintro (⟨hin, -⟩ | hclosed)
        · cases hin
        · exact hclosed
      · cases q <;> exact hq
    | socketIn =>
      cases hcancel
      have hused : (s.socket.wrapper.eof = true ∨ s.socket.wrapper.closed = true) ∨ H :=
        hwhy.imp (Or.imp_left And.right) And.left
      refine ⟨⟨hs.1.congr (hother _ (by decide)) (hother _ (by decide)) ⟨rfl, rfl, rfl⟩
        ⟨rfl, rfl, rfl⟩, hs.2.cancelSource hself (hother _ (by decide)) hused⟩, fun q _ hq => ?_⟩
      cases q <;> exact hq
    | stdoutOut =>
      cases hcancel
      refine ⟨⟨hs.1.congr (hother _ (by decide)) (hother _ (by decide)) ⟨rfl, rfl, rfl⟩
        ⟨rfl, rfl, rfl⟩, hs.2.cancelSink (hother _ (by decide)) hself (hwhy.imp_left ?_)⟩,
        fun q _ hq => ?_⟩
      · rintro (⟨hin, -⟩ | hclosed)
        · cases hin
        · exact hclosed
      · cases q <;> exact hq
  callback := by
    intro P r k s s' _ hs hr hC hcallback
    cases r with
    | stdinIn =>
      obtain ⟨⟨input, outbound⟩, hread, hret⟩ := bind_eq_ok hcallback
      cases hret
      refine ⟨⟨hs.1.readInto hr hC hread, hs.2⟩, fun q hne hq => ?_⟩
      cases q with
      | stdinIn => exact absurd rfl hne
      | _ => exact hq
    | socketOut =>
      obtain ⟨⟨outbound, socket, shut⟩, hwrite, hret⟩ := bind_eq_ok hcallback
      cases hret
      have hframe := writeFrom_frame hwrite
      refine ⟨⟨hs.1.writeFrom hr hC hwrite, hs.2.congr Iff.rfl Iff.rfl hframe ⟨rfl, rfl, rfl⟩⟩,
        fun q hne hq => ?_⟩
      cases q with
      | socketOut => exact absurd rfl hne
      | socketIn => exact hframe.2.1.trans hq
      | _ => exact hq
    | socketIn =>
      obtain ⟨⟨socket, inbound⟩, hread, hret⟩ := bind_eq_ok hcallback
      cases hret
      obtain ⟨-, hframe⟩ := readInto_frame hread
      refine ⟨⟨hs.1.congr Iff.rfl Iff.rfl ⟨rfl, rfl, rfl⟩ hframe, hs.2.readInto hr hC hread⟩,
        fun q hne hq => ?_⟩
      cases q with
      | socketIn => exact absurd rfl hne
      | _ => exact hq
    | stdoutOut =>
      obtain ⟨⟨inbound, output, shut⟩, hwrite, hret⟩ := bind_eq_ok hcallback
      cases hret
      refine ⟨⟨hs.1, hs.2.writeFrom hr hC hwrite⟩, fun q hne hq => ?_⟩
      cases q with
      | stdoutOut => exact absurd rfl hne
      | _ => exact hq

theorem throwsOnly_bind_ok {α β : Type} {E : String → Prop} {x : Except String α} {f : α → β}
    (h : ∃ a, x = .ok a) : ThrowsOnly E (x >>= fun a => .ok (f a)) := by
  obtain ⟨a, rfl⟩ := h
  exact .of_ok rfl

theorem liveSafe (H : Prop) :
    eventLoop.LiveSafe (fun _ k => k.Honest) H (Sound H) Condition (fun _ => False) where
  interested := (liveKeeps H).interested
  cancel := (liveKeeps H).cancel
  callback := fun P r k s s' _ => (liveKeeps H).callback P r k s s' trivial
  cancel_throws := fun P r s _ => by cases r <;> exact .of_ok rfl
  callback_throws := by
    intro P r k s hk hs _ hC
    cases r with
    | stdinIn => exact throwsOnly_bind_ok (readInto_ok hk s.input s.outbound)
    | socketOut => exact throwsOnly_bind_ok (writeFrom_ok hk _ s.outbound (hs.1.accepts hC) _)
    | socketIn => exact throwsOnly_bind_ok (readInto_ok hk s.socket s.inbound)
    | stdoutOut => exact throwsOnly_bind_ok (writeFrom_ok hk _ s.inbound (hs.2.accepts hC) _)
  callback_serves := by
    -- every callback uses its descriptor
    intro P r k s s' _ _ _ _ hcallback hsame
    refine absurd hsame ?_
    cases r with
    | stdinIn =>
      obtain ⟨_, hread, hret⟩ := bind_eq_ok hcallback
      cases hret
      exact (readInto_frame hread).1
    | socketOut =>
      obtain ⟨_, hwrite, hret⟩ := bind_eq_ok hcallback
      cases hret
      exact writeFrom_writeCount hwrite
    | socketIn =>
      obtain ⟨_, hread, hret⟩ := bind_eq_ok hcallback
      cases hret
      exact (readInto_frame hread).1
    | stdoutOut =>
      obtain ⟨_, hwrite, hret⟩ := bind_eq_ok hcallback
      cases hret
      exact writeFrom_writeCount hwrite

end Rules

section Runs
variable {H : Prop} {c c' : Copy} {poll : Poll RuleName Kernel}
  {polls : List (Poll RuleName Kernel)}

/-- `poll` reports no error, and the system calls do as they should. -/
structure Honest (poll : Poll RuleName Kernel) : Prop where
  answers : poll.Answers fun _ k => k.Honest
  sound : poll.Sound

structure Copy.Sane (H : Prop) (c : Copy) : Prop where
  rules : c.rules.Sublist allRules
  sound : Sound H (· ∈ c.rules) c.state

theorem mem_allRules (r : RuleName) : r ∈ allRules := by
  cases r <;> decide

theorem sane_start {socket : FDWrapper} (hsocket : socket.closed = false)
    (h : start socket = some c) : c.Sane H := by
  simp only [start, Option.bind_eq_bind, Option.bind_eq_some_iff] at h
  obtain ⟨outbound, hout, inbound, hin, h⟩ := h
  cases h
  refine ⟨List.Sublist.refl _, ?_, ?_⟩
  · refine Direct.of_new hout (mem_allRules _) (mem_allRules _) rfl rfl rfl ?_
    rw [FileDescriptor.refusal, hsocket]
    rfl
  · exact Direct.of_new hin (mem_allRules _) (mem_allRules _) rfl rfl hsocket rfl

theorem Copy.Sane.nodup (h : c.Sane H) : c.rules.Nodup :=
  h.rules.nodup (by decide)

theorem Copy.Sane.turn (h : c.Sane H) (hhangs : poll.HangsOnly H) (hturn : c.turn poll = .ok c') :
    c'.Sane H := by
  rw [Copy.turn] at hturn
  split at hturn
  · cases hturn
    exact h
  · obtain ⟨⟨result, rules, state⟩, hwait, hret⟩ := bind_eq_ok hturn
    cases hret
    obtain ⟨hsound, hsub⟩ :=
      EventLoop.waitNextEvent_live (liveKeeps H) poll.answers_true hhangs h.nodup h.sound hwait
    exact ⟨hsub.trans h.rules, hsound⟩

theorem Copy.Sane.turn_ok (h : c.Sane H) (hhangs : poll.HangsOnly H) (hpoll : Honest poll) :
    ThrowsOnly (fun _ => False) (c.turn poll) := by
  rw [Copy.turn]
  split
  · exact .of_ok rfl
  · refine (EventLoop.waitNextEvent_throws_live (liveSafe H) hpoll.answers hhangs hpoll.sound
      h.nodup h.sound).bind fun _ _ => .of_ok rfl

theorem Copy.Sane.run_ok (h : c.Sane H) (hpolls : ∀ poll ∈ polls, poll.HangsOnly H ∧ Honest poll) :
    ∃ c', c.run polls = .ok c' ∧ c'.Sane H := by
  have hthrows : ThrowsOnly (fun _ => False) (c.run polls) :=
    .foldlM (I := Copy.Sane H) (fun _ poll hp _ hc hturn => hc.turn (hpolls poll hp).1 hturn)
      (fun _ poll hp hc => hc.turn_ok (hpolls poll hp).1 (hpolls poll hp).2) h
  cases hrun : c.run polls with
  | error e => exact (hthrows e hrun).elim
  | ok c' =>
    exact ⟨c', rfl, foldlM_keeps (fun _ poll hp _ hc hturn => hc.turn (hpolls poll hp).1 hturn) h
      hrun⟩

/-- No rule that is left is interested. -/
def Copy.Rested (c : Copy) : Prop := ∀ r ∈ c.rules, (rule r).interest c.state = false

/-- A rule that is cancelled takes no interest away from a rule before it. -/
theorem rested_of_exit {rules kept : List RuleName} {s s' : State} {returned : Bool}
    (hpoll : poll ≠ .failed true) (hrules : rules.Sublist allRules)
    (hexit : eventLoop.waitNextEvent rules s poll = .ok (.exit, kept, s')) :
    Copy.Rested ⟨s', kept, returned⟩ := by
  obtain ⟨pollfds, hset, hnone⟩ := EventLoop.waitNextEvent_exit hpoll hexit
  have hordered : allRules.Pairwise fun a b => allRules.idxOf a < allRules.idxOf b := by decide
  intro r hr
  refine EventLoop.setUp_idle (J := fun s => (rule r).interest s = false) (fun _ hidle => hidle)
    ?_ (hordered.sublist hrules) hr hset hnone
  intro q hafter s s' hs hcancel
  cases r <;> cases q <;> first
    | exact absurd hafter (by decide)
    | cases hcancel
      exact hs

theorem Copy.Sane.rested_turn (h : c.Sane H) (hpoll : poll ≠ .failed true)
    (hold : c.returned = true → c.Rested) (hturn : c.turn poll = .ok c')
    (hreturned : c'.returned = true) : c'.Rested := by
  rw [Copy.turn] at hturn
  split at hturn
  · next hdone =>
    cases hturn
    exact hold hdone
  · obtain ⟨⟨result, rules, state⟩, hwait, hret⟩ := bind_eq_ok hturn
    cases hret
    obtain rfl : result = .exit := of_decide_eq_true hreturned
    exact rested_of_exit hpoll h.rules hwait

/-- Everything that was read was written, and the sink was ended; or else the sink hung up. -/
def Copied (H : Prop) (ending : Ending) (writes : Prop) (source sink : FileDescriptor) : Prop :=
  sink.sent = source.received ∧ ending.finished sink = true ∧ (source.wrapper.eof = true ∨ H) ∨
    H ∧ ¬ writes

theorem Copy.Sane.copied (h : c.Sane H) (hrested : c.Rested) :
    Copied H .shutdown (.socketOut ∈ c.rules) c.state.input c.state.socket ∧
      Copied H .close (.stdoutOut ∈ c.rules) c.state.socket c.state.output := by
  obtain ⟨hout, hin⟩ := h.sound
  refine ⟨hout.copied (fun hmem => ?_) (fun hmem => hrested _ hmem),
    hin.copied (fun hmem => ?_) (fun hmem => hrested _ hmem)⟩
  · simpa [rule, hout.error_eq, hin.error_eq] using hrested _ hmem
  · simpa [rule, hout.error_eq, hin.error_eq] using hrested _ hmem

end Runs

section Winds
variable {ending : Ending} {stream stream' : ByteStream} {sink sink' : FileDescriptor}
  {shutdown shutdown' : Bool} {k : Kernel}

/-- What is left for a rule that writes: the bytes, and the end of them. -/
def waiting (stream : ByteStream) (shutdown : Bool) : ℕ :=
  stream.bufferSize + if stream.eof && !shutdown then 1 else 0

theorem waiting_le (stream : ByteStream) (shutdown : Bool) :
    waiting stream shutdown ≤ stream.bufferSize + 1 := by
  rw [waiting]
  split <;> omega

theorem waiting_endInput_le (stream : ByteStream) (shutdown : Bool) :
    waiting stream.endInput shutdown ≤ waiting stream shutdown + 1 := by
  change stream.bufferSize + _ ≤ stream.bufferSize + _ + 1
  split <;> split <;> omega

theorem interest_endInput
    (h : (!stream.bufferEmpty || (stream.eof && !shutdown)) = true) :
    (!stream.endInput.bufferEmpty || (stream.endInput.eof && !shutdown)) = true := by
  change (!stream.bufferEmpty || ((true && stream.bufferEmpty) && !shutdown)) = true
  rw [ByteStream.eof] at h
  revert h
  cases stream.bufferEmpty <;> cases shutdown <;> simp

theorem waiting_writeFrom_lt (hwf : stream.Wf)
    (hinterest : (!stream.bufferEmpty || (stream.eof && !shutdown)) = true)
    (h : writeFrom ending stream sink shutdown k = .ok (stream', sink', shutdown')) :
    stream'.Wf ∧ waiting stream' shutdown' < waiting stream shutdown := by
  obtain ⟨n, hle, hpos, rfl, hcases⟩ := writeFrom_eq_ok h
  have hn := hle.trans (length_offered_le_endOfBuffer stream)
  refine ⟨hwf.popOutput hn, ?_⟩
  have hsize : (stream.popOutput n).bufferSize = stream.bufferSize - n :=
    hwf.endOfBuffer_popOutput hn
  have hnew : waiting (stream.popOutput n) shutdown' = stream.bufferSize - n := by
    rw [waiting, hsize]
    rcases hcases with ⟨-, rfl, -⟩ | ⟨heof, -, -⟩
    · simp
    · simp [heof]
  rw [hnew, waiting]
  cases hempty : stream.bufferEmpty with
  | true =>
    rw [hempty] at hinterest
    rw [if_pos (by simpa using hinterest)]
    omega
  | false =>
    have hsome : stream.bufferSize ≠ 0 := by
      simpa [ByteStream.bufferEmpty, ByteStream.bufferSize] using hempty
    have hbuf := hwf.length_buffer
    have hend := hwf.end_le
    have hoffered : offered stream ≠ [] := by
      rw [← List.length_pos_iff, offered, ByteStream.peekOutput, List.length_take, maxCopyLength]
      rw [ByteStream.bufferSize] at hsome ⊢
      omega
    have := hpos hoffered
    omega

/-- Both sources are at their end. -/
structure Drained (s : State) : Prop where
  input : s.input.wrapper.eof = true
  socket : s.socket.wrapper.eof = true
  outbound : s.outbound.Wf
  inbound : s.inbound.Wf

def Wanted : RuleName → State → Prop
  | .stdinIn, _ => False
  | .socketOut, s => (rule .socketOut).interest s = true
  | .socketIn, _ => False
  | .stdoutOut, s => (rule .stdoutOut).interest s = true

def remaining (s : State) : ℕ :=
  waiting s.outbound s.outboundShutdown + waiting s.inbound s.inboundShutdown

theorem drained_winds :
    eventLoop.Winds (fun _ _ => True) Drained Wanted remaining 2 where
  interested := by
    intro r s hs hused hinterest
    cases r with
    | stdinIn => exact hused (Or.inl ⟨rfl, hs.input⟩)
    | socketOut => exact hinterest
    | socketIn => exact hused (Or.inl ⟨rfl, hs.socket⟩)
    | stdoutOut => exact hinterest
  cancel := by
    intro r s s' hs hcancel
    have hout : Drained { s with outbound := s.outbound.endInput } :=
      ⟨hs.input, hs.socket, hs.outbound.endInput, hs.inbound⟩
    have hin : Drained { s with inbound := s.inbound.endInput } :=
      ⟨hs.input, hs.socket, hs.outbound, hs.inbound.endInput⟩
    cases r <;> cases hcancel
    case stdinIn | socketOut =>
      refine ⟨hout, fun q _ hq => ?_⟩
      cases q with
      | socketOut => exact interest_endInput hq
      | _ => exact hq
    case socketIn | stdoutOut =>
      refine ⟨hin, fun q _ hq => ?_⟩
      cases q with
      | stdoutOut => exact interest_endInput hq
      | _ => exact hq
  callback := by
    intro r k s s' _ hs hC hcallback
    cases r with
    | stdinIn => exact hC.elim
    | socketIn => exact hC.elim
    | socketOut =>
      obtain ⟨⟨outbound, socket, shut⟩, hwrite, hret⟩ := bind_eq_ok hcallback
      cases hret
      have heof := (writeFrom_frame hwrite).2.1
      refine ⟨⟨hs.input, heof.trans hs.socket, (waiting_writeFrom_lt hs.outbound hC hwrite).1,
        hs.inbound⟩, fun q hne hq => ?_⟩
      cases q with
      | socketOut => exact absurd rfl hne
      | _ => exact hq
    | stdoutOut =>
      obtain ⟨⟨inbound, output, shut⟩, hwrite, hret⟩ := bind_eq_ok hcallback
      cases hret
      refine ⟨⟨hs.input, hs.socket, hs.outbound, (waiting_writeFrom_lt hs.inbound hC hwrite).1⟩,
        fun q hne hq => ?_⟩
      cases q with
      | stdoutOut => exact absurd rfl hne
      | _ => exact hq
  cancel_lt := by
    intro r s s' _ hcancel
    have hout := waiting_endInput_le s.outbound s.outboundShutdown
    have hin := waiting_endInput_le s.inbound s.inboundShutdown
    cases r <;> cases hcancel <;> simp only [remaining] <;> omega
  callback_lt := by
    intro r k s s' _ hs hC hcallback
    cases r with
    | stdinIn => exact hC.elim
    | socketIn => exact hC.elim
    | socketOut =>
      obtain ⟨⟨outbound, socket, shut⟩, hwrite, hret⟩ := bind_eq_ok hcallback
      cases hret
      exact Nat.add_lt_add_right (waiting_writeFrom_lt hs.outbound hC hwrite).2 _
    | stdoutOut =>
      obtain ⟨⟨inbound, output, shut⟩, hwrite, hret⟩ := bind_eq_ok hcallback
      cases hret
      exact Nat.add_lt_add_left (waiting_writeFrom_lt hs.inbound hC hwrite).2 _

/-- A turn that is served returns or brings the copy nearer to its end. -/
theorem Drained.turn {c c' : Copy} {poll : Poll RuleName Kernel} (h : Drained c.state)
    (hrules : c.rules.Nodup) (hserves : poll.Serves) (hturn : c.turn poll = .ok c') :
    c'.returned = true ∨ (Drained c'.state ∧ c'.rules.Nodup) ∧
      remaining c'.state + 2 * c'.rules.length < remaining c.state + 2 * c.rules.length := by
  rw [Copy.turn] at hturn
  split at hturn
  · next hdone =>
    cases hturn
    exact Or.inl hdone
  · obtain ⟨⟨result, rules, state⟩, hwait, hret⟩ := bind_eq_ok hturn
    cases hret
    obtain ⟨hstate, hsub⟩ := EventLoop.waitNextEvent_keeps drained_winds.toKeeps poll.answers_true
      hrules h hwait
    rcases EventLoop.waitNextEvent_winds drained_winds poll.answers_true hserves hrules h hwait
      with hexit | hless
    · exact Or.inl (decide_eq_true hexit)
    · exact Or.inr ⟨⟨hstate, hsub.nodup hrules⟩, hless⟩

theorem returned_stays {c c' : Copy} {poll : Poll RuleName Kernel} (h : c.returned = true)
    (hturn : c.turn poll = .ok c') : c'.returned = true := by
  rw [Copy.turn, if_pos h] at hturn
  cases hturn
  exact h

end Winds

section Small

/-- A kernel that takes all that is written and has the given bytes to read. -/
def smallKernel (data : List Byte) : Kernel where
  read := fun n => .ok (data.take n)
  writev := fun bytes => .ok bytes.length
  shutdown := .ok ()
  close := .ok ()

theorem smallKernel_honest (data : List Byte) : (smallKernel data).Honest where
  read_ok := fun n => ⟨data.take n, rfl, by simp⟩
  writev_ok := fun bytes => ⟨bytes.length, rfl, le_refl _, fun h => List.length_pos_iff.mpr h⟩
  shutdown_ok := rfl
  close_ok := rfl

/-- All descriptors are ready. Standard input has the given bytes, the socket none. -/
def smallPoll (data : List Byte) : Poll RuleName Kernel :=
  .ready (fun _ => { pollin := true, pollout := true })
    fun r => smallKernel (if r = .stdinIn then data else [])

theorem smallPoll_honest (data : List Byte) : Honest (smallPoll data) :=
  ⟨fun _ => smallKernel_honest _, fun _ => ⟨rfl, rfl⟩⟩

theorem smallPoll_serves (data : List Byte) : (smallPoll data).Serves :=
  fun _ => ⟨rfl, rfl⟩

theorem smallPoll_undisturbed (data : List Byte) :
    (smallPoll data).HangsOnly False ∧ smallPoll data ≠ .failed true :=
  ⟨fun _ hhup => Bool.noConfusion hhup, nofun⟩

def smallCopy : Copy := (start {}).get (by decide +kernel)

theorem smallCopy_start : start {} = some smallCopy := (Option.some_get _).symm

theorem smallCopy_run_isSome (inputs : List (List Byte)) :
    (smallCopy.run (inputs.map smallPoll)).toOption.isSome = true := by
  have hsane : smallCopy.Sane True := sane_start rfl smallCopy_start
  have hpolls : ∀ poll ∈ inputs.map smallPoll, poll.HangsOnly True ∧ Honest poll := by
    intro poll hp
    obtain ⟨data, -, rfl⟩ := List.mem_map.mp hp
    exact ⟨Poll.hangsOnly_true _, smallPoll_honest data⟩
  obtain ⟨c', hrun, -⟩ := hsane.run_ok hpolls
  rw [hrun]
  rfl

/-- The copy after standard input gave the given bytes, one part in each turn. -/
def smallCopyAfter (inputs : List (List Byte)) : Copy :=
  (smallCopy.run (inputs.map smallPoll)).toOption.get (smallCopy_run_isSome inputs)

theorem smallCopy_run (inputs : List (List Byte)) :
    smallCopy.run (inputs.map smallPoll) = .ok (smallCopyAfter inputs) :=
  eq_ok_of_toOption (Option.some_get _).symm

end Small

section Theorems
variable {H : Prop} {socket : FDWrapper} {c c' : Copy} {polls : List (Poll RuleName Kernel)}

/-- The copy is never stopped by an error of its own, and at any time each sink was written what was
read from its source, but for the bytes that wait in the stream. -/
theorem copy_conserves (hsocket : socket.closed = false) (hstart : start socket = some c)
    (hpolls : ∀ poll ∈ polls, Honest poll) : ∃ c', c.run polls = .ok c' ∧
      c'.state.socket.sent ++ c'.state.outbound.contents = c'.state.input.received ∧
      c'.state.output.sent ++ c'.state.inbound.contents = c'.state.socket.received := by
  have hsane : c.Sane True := sane_start hsocket hstart
  obtain ⟨c', hrun, hsane'⟩ :=
    hsane.run_ok fun poll hp => ⟨poll.hangsOnly_true, hpolls poll hp⟩
  exact ⟨c', hrun, hsane'.sound.1.conserved, hsane'.sound.2.conserved⟩

theorem copy_conserves_byte : (smallCopyAfter [[7]]).state.outbound.contents = [7] ∧
    ∃ c', smallCopy.run ([[7]].map smallPoll) = .ok c' ∧
      c'.state.socket.sent ++ c'.state.outbound.contents = c'.state.input.received ∧
      c'.state.output.sent ++ c'.state.inbound.contents = c'.state.socket.received := by
  refine ⟨by decide +kernel, copy_conserves rfl smallCopy_start fun poll hp => ?_⟩
  obtain ⟨data, -, rfl⟩ := List.mem_map.mp hp
  exact smallPoll_honest data

/-- A copy that was not interrupted returns only when both directions are copied to the end, except
for one whose sink hung up. -/
theorem copy_complete (hsocket : socket.closed = false) (hstart : start socket = some c)
    (hpolls : ∀ poll ∈ polls, poll.HangsOnly H ∧ poll ≠ .failed true)
    (hrun : c.run polls = .ok c') (hreturned : c'.returned = true) :
    Copied H .shutdown (.socketOut ∈ c'.rules) c'.state.input c'.state.socket ∧
      Copied H .close (.stdoutOut ∈ c'.rules) c'.state.socket c'.state.output := by
  have hfresh : c.returned = false := by
    simp only [start, Option.bind_eq_bind, Option.bind_eq_some_iff] at hstart
    obtain ⟨_, _, _, _, hc⟩ := hstart
    cases hc
    rfl
  have hboth : c'.Sane H ∧ (c'.returned = true → c'.Rested) := by
    refine foldlM_keeps (I := fun c : Copy => c.Sane H ∧ (c.returned = true → c.Rested)) ?_
      ⟨sane_start hsocket hstart, fun hdone => ?_⟩ hrun
    · rintro c poll hp c' ⟨hsane, hold⟩ hturn
      exact ⟨hsane.turn (hpolls poll hp).1 hturn,
        hsane.rested_turn (hpolls poll hp).2 hold hturn⟩
    · rw [hfresh] at hdone
      cases hdone
  exact hboth.1.copied (hboth.2 hreturned)

theorem copy_complete_byte : (smallCopyAfter [[7], [], []]).state.socket.sent = [7] ∧
    Copied False .shutdown (.socketOut ∈ (smallCopyAfter [[7], [], []]).rules)
        (smallCopyAfter [[7], [], []]).state.input (smallCopyAfter [[7], [], []]).state.socket ∧
      Copied False .close (.stdoutOut ∈ (smallCopyAfter [[7], [], []]).rules)
        (smallCopyAfter [[7], [], []]).state.socket
        (smallCopyAfter [[7], [], []]).state.output := by
  refine ⟨by decide +kernel, copy_complete rfl smallCopy_start (fun poll hp => ?_)
    (smallCopy_run [[7], [], []]) (by decide +kernel)⟩
  obtain ⟨data, -, rfl⟩ := List.mem_map.mp hp
  exact smallPoll_undisturbed data

/-- Once both sources are at their end, a copy that is served returns after a bounded number of
turns. -/
theorem copy_returns {before after : List (Poll RuleName Kernel)} (hsocket : socket.closed = false)
    (hstart : start socket = some c) (hreach : c.run before = .ok c')
    (hinput : c'.state.input.wrapper.eof = true) (heof : c'.state.socket.wrapper.eof = true)
    (hafter : ∀ poll ∈ after, Honest poll ∧ poll.Serves)
    (hlong : c'.state.outbound.bufferSize + c'.state.inbound.bufferSize + 10 < after.length) :
    ∃ c'', c'.run after = .ok c'' ∧ c''.returned = true := by
  have hsane : c'.Sane True :=
    foldlM_invariant (fun _ poll _ hc hturn => hc.turn poll.hangsOnly_true hturn)
      (sane_start hsocket hstart) hreach
  obtain ⟨c'', hrun, -⟩ :=
    hsane.run_ok fun poll hp => ⟨poll.hangsOnly_true, (hafter poll hp).1⟩
  refine ⟨c'', hrun, foldlM_reaches (μ := fun c : Copy => remaining c.state + 2 * c.rules.length)
    (I := fun c => Drained c.state ∧ c.rules.Nodup) (fun _ _ _ => returned_stays) ?_
    ⟨⟨hinput, heof, hsane.sound.1.wf, hsane.sound.2.wf⟩, hsane.nodup⟩ ?_ hrun⟩
  · exact fun c poll hp c' hc hturn => hc.1.turn hc.2 (hafter poll hp).2 hturn
  · have hrules : c'.rules.length ≤ 4 := hsane.rules.length_le
    have hout := waiting_le c'.state.outbound c'.state.outboundShutdown
    have hin := waiting_le c'.state.inbound c'.state.inboundShutdown
    rw [remaining]
    omega

theorem copy_returns_byte : (smallCopyAfter [[7], []]).returned = false ∧
    ∃ c', (smallCopyAfter [[7], []]).run ((List.replicate 11 []).map smallPoll) = .ok c' ∧
      c'.returned = true := by
  refine ⟨by decide +kernel, copy_returns rfl smallCopy_start (smallCopy_run [[7], []])
    (by decide +kernel) (by decide +kernel) (fun poll hp => ?_) (by decide +kernel)⟩
  obtain ⟨data, -, rfl⟩ := List.mem_map.mp hp
  exact ⟨smallPoll_honest data, smallPoll_serves data⟩

end Theorems

end BidirectionalStreamCopy
end Sponge
