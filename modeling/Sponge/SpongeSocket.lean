import Sponge.EmittedSegments
import Sponge.EventLoop
import Sponge.TCPState

/-!
# The TCP socket

A thread runs the endpoint. Its event loop has four rules: datagrams go to the endpoint, bytes of
the owner go to the endpoint, received bytes go to the owner, and segments go out as datagrams. The
owner sits at the other end of a pair of stream sockets: what it writes is what `threadData`
receives, and what `threadData` sends is what it reads.

Whatever arrives from the network, the only thing that can kill the thread is a write to the owner
after the socket was shut down for it.
-/
namespace Sponge
open MachineWords

def TCPReceiverStateSummary.text : TCPReceiverStateSummary → String
  | .error => "error (connection was reset)"
  | .listen => "waiting for SYN: ackno is empty"
  | .synRecv => "SYN received (ackno exists), and input to stream hasn't ended"
  | .finRecv => "input to stream has ended"

def TCPSenderStateSummary.text : TCPSenderStateSummary → String
  | .error => "error (connection was reset)"
  | .closed => "waiting for stream to begin (no SYN sent)"
  | .synSent => "stream started but nothing acknowledged"
  | .synAcked => "stream ongoing"
  | .finSent => "stream finished (FIN sent) but not fully acknowledged"
  | .finAcked => "stream finished and fully acknowledged"

def TCPState.name (s : TCPState) : String :=
  "sender=`" ++ s.sender.text ++ "`, receiver=`" ++ s.receiver.text ++ "`, active=" ++
    (if s.active then "1" else "0") ++ ", linger_after_streams_finish=" ++
    (if s.lingerAfterStreamsFinish then "1" else "0")

namespace TCPSpongeSocket

/-- The rules, in the order in which they are added. -/
inductive RuleName where
  | datagramsIn
  | bytesIn
  | bytesOut
  | segmentsOut
  deriving DecidableEq

inductive Fd where
  | datagramAdapter
  | threadData

/-- What the system calls of a callback return: a read of the datagram device, and the calls on the
socket to the owner. -/
structure SystemCalls (δ : Type) where
  received : Except String δ
  kernel : Kernel

/-- What the rules work on, once the endpoint exists. -/
structure Session (α : Type) where
  tcp : TCPConnection
  adapter : α
  adapterFd : FDWrapper := {}
  threadData : FileDescriptor := {}
  inboundShutdown : Bool := false
  outboundShutdown : Bool := false
  fullyAcked : Bool := false

variable {α κ δ : Type} (A : FdAdapter α κ δ)

/-- Each packet that goes to the device is a write. -/
def noteWrites (w : FDWrapper) (before after : α) : FDWrapper :=
  { w with writeCount :=
      addMod 32 w.writeCount ((A.sent after).length - (A.sent before).length) }

namespace Session

/-- What rule 1 does with what it has read. -/
def receive (s : Session α) (d : δ) (seg : Option TCPSegment) (adapter : α) : Session α :=
  let tcp := match seg with
    | some seg => s.tcp.segmentReceived seg
    | none => s.tcp
  { s with
    tcp
    adapter
    adapterFd := noteWrites A (A.noteRead s.adapterFd d) s.adapter adapter
    fullyAcked := s.fullyAcked || (s.threadData.wrapper.eof && tcp.sender.bytesInFlight == 0) }

/-- Rule 1: read from the packet stream into the endpoint. -/
def datagramsIn (calls : SystemCalls δ) (s : Session α) : Except String (Session α) := do
  let d ← calls.received
  let (seg, adapter) ← A.read s.adapter d
  return s.receive A d seg adapter

def endInput (s : Session α) : Session α :=
  { s with tcp := s.tcp.endInputStream, outboundShutdown := true }

/-- Rule 2: read from the owner into the outbound stream. -/
def bytesIn (calls : SystemCalls δ) (s : Session α) : Except String (Session α) := do
  let (data, threadData) ← s.threadData.read s.tcp.sender.stream.remainingCapacity calls.kernel
  let amountWritten := s.tcp.sender.stream.writeSize data
  let s := { s with threadData, tcp := s.tcp.write data }
  if amountWritten ≠ data.length then
    .error "TCPConnection::write() accepted less than advertised length"
  else if threadData.wrapper.eof then return s.endInput
  else return s

/-- Rule 3: write from the inbound stream to the owner. Only what was written is popped. -/
def bytesOut (calls : SystemCalls δ) (s : Session α) : Except String (Session α) := do
  let inbound := s.tcp.inboundStream
  let buffer := inbound.peekOutput (min 65536 inbound.bufferSize)
  let (bytesWritten, threadData) ← s.threadData.writeSome buffer calls.kernel
  let s := { s with threadData, tcp.receiver := s.tcp.receiver.popOutput bytesWritten }
  if s.tcp.inboundStream.eof || s.tcp.inboundStream.error then do
    let threadData ← s.threadData.shutdownWr calls.kernel
    return { s with threadData, inboundShutdown := true }
  else return s

/-- A turn of the loop of rule 4. -/
def sendFront (s : Session α) (seg : TCPSegment) : Except String (Session α) := do
  let adapter ← A.write s.adapter seg
  return { s with
    adapter
    adapterFd := noteWrites A s.adapterFd s.adapter adapter
    tcp.segmentsOut := s.tcp.segmentsOut.tail }

/-- Rule 4: send the segments of the endpoint as datagrams. -/
def segmentsOut (s : Session α) : Except String (Session α) :=
  s.tcp.segmentsOut.foldlM (sendFront A) s

/-- The time that has passed is told to an active endpoint and its adapter. -/
def tick (s : Session α) (ms : ℕ) : Session α :=
  if s.tcp.isActive then
    let adapter := A.tick s.adapter ms
    { s with
      tcp := s.tcp.tick ms
      adapter
      adapterFd := noteWrites A s.adapterFd s.adapter adapter }
  else s

end Session

def eventLoop : EventLoop RuleName (Session α) Fd (SystemCalls δ) where
  descriptor s
    | .datagramAdapter => s.adapterFd
    | .threadData => s.threadData.wrapper
  rule
    | .datagramsIn => {
        fd := .datagramAdapter
        direction := .In
        callback := Session.datagramsIn A
        interest := fun s => s.tcp.isActive }
    | .bytesIn => {
        fd := .threadData
        direction := .In
        callback := Session.bytesIn
        interest := fun s => s.tcp.isActive && !s.outboundShutdown &&
          decide (0 < s.tcp.sender.stream.remainingCapacity)
        cancel := fun s => .ok s.endInput }
    | .bytesOut => {
        fd := .threadData
        direction := .Out
        callback := Session.bytesOut
        interest := fun s => !s.tcp.inboundStream.bufferEmpty ||
          (s.tcp.inboundStream.eof || s.tcp.inboundStream.error) && !s.inboundShutdown }
    | .segmentsOut => {
        fd := .datagramAdapter
        direction := .Out
        callback := fun _ => Session.segmentsOut A
        interest := fun s => !s.tcp.segmentsOut.isEmpty }

/-- Only rule 2 does something when it is cancelled. -/
theorem cancel_eq_ok {A : FdAdapter α κ δ} {r : RuleName} {s s' : Session α}
    (h : ((eventLoop A).rule r).cancel s = .ok s') :
    r = .bytesIn ∧ s' = s.endInput ∨ s' = s := by
  cases r with
  | bytesIn => exact Or.inl ⟨rfl, (Except.ok.inj h).symm⟩
  | datagramsIn => exact Or.inr (Except.ok.inj h).symm
  | bytesOut => exact Or.inr (Except.ok.inj h).symm
  | segmentsOut => exact Or.inr (Except.ok.inj h).symm

/-- Where the thread is: in the loop of `connect` or `listen_and_accept`, in `_tcp_main`, or
through. -/
inductive Phase where
  | connecting
  | accepting
  | main
  | finished
  deriving DecidableEq

namespace Phase

/-- The condition under which the loop goes on. -/
def condition (state : TCPState) : Phase → Bool
  | .connecting => state = .ofState .synSent
  | .accepting =>
    state = .ofState .listen || state = .ofState .synRcvd || state = .ofState .synSent
  | .main => true
  | .finished => false

def next : Phase → Phase
  | .connecting => .main
  | .accepting => .main
  | .main => .finished
  | .finished => .finished

end Phase

structure Thread (α : Type) where
  session : Session α
  rules : List RuleName
  phase : Phase

/-- What a turn of `_tcp_loop` meets: the outcome of `poll`, the abort flag, and the time since the
last tick. -/
structure Turn (δ : Type) where
  poll : Poll RuleName (SystemCalls δ)
  abort : Bool := false
  elapsed : ℕ

/-- A turn of `_tcp_loop`, or the way from one of its calls to the next. -/
def Thread.turn (t : Thread α) (u : Turn δ) : Except String (Thread α) :=
  if t.phase.condition t.session.tcp.state then do
    let (result, rules, session) ← (eventLoop A).waitNextEvent t.rules t.session u.poll
    if result = .exit ∨ u.abort = true then return ⟨session, rules, t.phase.next⟩
    else return ⟨session.tick A u.elapsed, rules, t.phase⟩
  else return { t with phase := t.phase.next }

end TCPSpongeSocket

/-- A socket, before and after `_initialize_TCP`. -/
inductive TCPSpongeSocket (α : Type) where
  | unconnected (adapter : α)
  | running (thread : TCPSpongeSocket.Thread α)

namespace TCPSpongeSocket
variable {α κ δ : Type} (A : FdAdapter α κ δ)

def allRules : List RuleName := [.datagramsIn, .bytesIn, .bytesOut, .segmentsOut]

theorem nodup_allRules : allRules.Nodup := by decide

/-- The endpoint and its four rules. A capacity that is too large makes the endpoint's constructor
throw. -/
def initializeTCP (config : TCPConfig) (random : WrappingInt32) (adapter : α) (phase : Phase) :
    Except String (Thread α) :=
  match TCPConnection.new config random with
  | none => .error "basic_string::_M_create"
  | some tcp => .ok { session := { tcp, adapter }, rules := allRules, phase }

/-- `connect` up to its loop. -/
def connect (socket : TCPSpongeSocket α) (cTCP : TCPConfig) (cAd : κ) (random : WrappingInt32) :
    Except String (Thread α) :=
  match socket with
  | .running _ => .error "connect() with TCPConnection already initialized"
  | .unconnected adapter => do
    let t ← initializeTCP cTCP random (A.configure adapter cAd) .connecting
    let t := { t with session.tcp := t.session.tcp.connect }
    let expected := TCPState.ofState .synSent
    if t.session.tcp.state ≠ expected then
      .error ("After TCPConnection::connect(), state was " ++ t.session.tcp.state.name ++
        " but expected " ++ expected.name)
    else return t

/-- `listen_and_accept` up to its loop. -/
def listenAndAccept (socket : TCPSpongeSocket α) (cTCP : TCPConfig) (cAd : κ)
    (random : WrappingInt32) : Except String (Thread α) :=
  match socket with
  | .running _ => .error "listen_and_accept() with TCPConnection already initialized"
  | .unconnected adapter =>
    initializeTCP cTCP random (A.setListening (A.configure adapter cAd) true) .accepting

namespace Session
section Callbacks
variable {A} {s s' : Session α} {calls : SystemCalls δ}

theorem datagramsIn_eq_ok (h : s.datagramsIn A calls = .ok s') :
    ∃ d seg adapter, calls.received = .ok d ∧ A.read s.adapter d = .ok (seg, adapter) ∧
      s' = s.receive A d seg adapter := by
  obtain ⟨d, hreceived, h⟩ := bind_eq_ok h
  obtain ⟨⟨seg, adapter⟩, hread, h⟩ := bind_eq_ok h
  exact ⟨d, seg, adapter, hreceived, hread, (Except.ok.inj h).symm⟩

/-- The session after `data` came from the owner. -/
def taken (s : Session α) (data : List Byte) : Session α :=
  { s with
    threadData := { s.threadData with
      wrapper := s.threadData.wrapper.noteRead s.tcp.sender.stream.remainingCapacity data
      received := s.threadData.received ++ data }
    tcp := s.tcp.write data }

theorem writeSize_of_le {b : ByteStream} {data : List Byte}
    (h : data.length ≤ b.remainingCapacity) : b.writeSize data = data.length :=
  Nat.min_eq_left h

theorem bytesIn_eq_ok (h : s.bytesIn calls = .ok s') :
    ∃ data, data.length ≤ s.tcp.sender.stream.remainingCapacity ∧
      (s' = s.taken data ∧ s'.threadData.wrapper.eof = false ∨ s' = (s.taken data).endInput) := by
  obtain ⟨⟨data, threadData⟩, hread, h⟩ := bind_eq_ok h
  obtain ⟨hle, -, rfl⟩ := FileDescriptor.read_eq_ok hread
  refine ⟨data, hle, ?_⟩
  dsimp only at h
  rw [if_neg (not_not_intro (writeSize_of_le hle))] at h
  split at h
  · exact Or.inr (Except.ok.inj h).symm
  · next hgoes =>
    cases h
    exact Or.inl ⟨rfl, Bool.not_eq_true _ ▸ hgoes⟩

/-- What rule 3 offers to the owner. -/
def offered (s : Session α) : List Byte :=
  s.tcp.inboundStream.peekOutput (min 65536 s.tcp.inboundStream.bufferSize)

theorem length_offered_le (s : Session α) : s.offered.length ≤ 65536 :=
  (List.length_take_le _ _).trans (Nat.min_le_left _ _)

theorem offered_fits (s : Session α) : s.offered.length ≤ stringMaxSize := by
  have hle := s.length_offered_le
  simp only [stringMaxSize]
  omega

/-- The session after the owner was given `n` of the bytes offered. -/
def handed (s : Session α) (n : ℕ) : Session α :=
  { s with
    threadData := { s.threadData with
      wrapper := s.threadData.wrapper.registerWrite
      sent := s.threadData.sent ++ s.offered.take n }
    tcp.receiver := s.tcp.receiver.popOutput n }

/-- The session after its socket was shut down for the owner. -/
def shut (s : Session α) : Session α :=
  { s with
    threadData := { s.threadData with
      wrapper := s.threadData.wrapper.registerWrite
      shutWr := true }
    inboundShutdown := true }

theorem bytesOut_eq_ok (h : s.bytesOut calls = .ok s') :
    ∃ n, s.threadData.refusal = none ∧ n ≤ s.offered.length ∧ (s.offered ≠ [] → 0 < n) ∧
      (((s.handed n).tcp.inboundStream.eof = true ∨ (s.handed n).tcp.inboundStream.error = true) ∧
          s' = (s.handed n).shut ∨
        (s.handed n).tcp.inboundStream.eof = false ∧
          (s.handed n).tcp.inboundStream.error = false ∧ s' = s.handed n) := by
  obtain ⟨⟨n, threadData⟩, hwrite, h⟩ := bind_eq_ok h
  obtain ⟨hopen, hle, hpos, rfl⟩ := FileDescriptor.writeSome_eq_ok s.offered_fits hwrite
  refine ⟨n, hopen, hle, hpos, ?_⟩
  dsimp only at h
  split at h
  · next hended =>
    obtain ⟨threadData, hshut, h⟩ := bind_eq_ok h
    rw [FileDescriptor.shutdownWr_eq_ok hshut] at h
    exact Or.inl ⟨Bool.or_eq_true_iff.mp hended, (Except.ok.inj h).symm⟩
  · next hgoes =>
    obtain ⟨heof, herror⟩ := Bool.or_eq_false_iff.mp (Bool.not_eq_true _ ▸ hgoes)
    exact Or.inr ⟨heof, herror, (Except.ok.inj h).symm⟩

variable {Inv : List TCPSegment → α → Prop} {given : List TCPSegment}

/-- The loop of rule 4 gives all segments to the adapter. -/
theorem sendFront_foldlM (hlaw : A.Lawful Inv) {segs : List TCPSegment} (hs : Inv given s.adapter)
    (hsegs : ∀ seg ∈ segs, seg.Ordinary) (hqueue : s.tcp.segmentsOut = segs) :
    ∃ adapter adapterFd, Inv (given ++ segs) adapter ∧
      segs.foldlM (sendFront A) s = .ok { s with adapter, adapterFd, tcp.segmentsOut := [] } := by
  induction segs generalizing s given with
  | nil =>
    have hsame : ({ s with tcp.segmentsOut := [] } : Session α) = s := by rw [← hqueue]
    exact ⟨s.adapter, s.adapterFd, by rwa [List.append_nil], congrArg Except.ok hsame.symm⟩
  | cons seg segs ih =>
    obtain ⟨hseg, hsegs⟩ := List.forall_mem_cons.mp hsegs
    obtain ⟨adapter, hwrite, hadapter⟩ := hlaw.write hs hseg
    have hsend : s.sendFront A seg = .ok { s with
        adapter, adapterFd := noteWrites A s.adapterFd s.adapter adapter
        tcp.segmentsOut := segs } := by
      simp only [sendFront, hwrite, hqueue, bind, Except.bind]
      rfl
    obtain ⟨adapter', adapterFd, hadapter', hrest⟩ := ih (s := { s with
      adapter, adapterFd := noteWrites A s.adapterFd s.adapter adapter
      tcp.segmentsOut := segs }) hadapter hsegs rfl
    refine ⟨adapter', adapterFd, ?_, ?_⟩
    · rw [List.append_cons]
      exact hadapter'
    · rw [List.foldlM_cons, hsend]
      exact hrest

theorem segmentsOut_eq (hlaw : A.Lawful Inv) (hs : Inv given s.adapter) (hregular : s.tcp.Regular) :
    ∃ adapter adapterFd, Inv (given ++ s.tcp.segmentsOut) adapter ∧
      s.segmentsOut A = .ok { s with adapter, adapterFd, tcp.segmentsOut := [] } :=
  sendFront_foldlM hlaw hs hregular.emitted rfl

end Callbacks

section Healthy
variable {A} {Inv : List TCPSegment → α → Prop}

/-- What keeps the rules from throwing. -/
structure Healthy (Inv : List TCPSegment → α → Prop) (s : Session α) : Prop where
  adapter : ∃ given, Inv given s.adapter
  regular : s.tcp.Regular
  sized : s.tcp.receiver.reassembler.Sized
  open_fd : s.threadData.wrapper.closed = false

variable {s s' : Session α}

theorem Healthy.act (h : s.Healthy Inv) (op : TCPConnection.Op)
    (hpop : ∀ len, op = .pop len → len ≤ s.tcp.inboundStream.bufferSize)
    (htcp : s'.tcp = s.tcp.step op) (hadapter : ∃ given, Inv given s'.adapter)
    (hopen : s'.threadData.wrapper.closed = s.threadData.wrapper.closed) : s'.Healthy Inv :=
  ⟨hadapter, htcp ▸ h.regular.step op, htcp ▸ TCPConnection.sized_step h.sized hpop,
    hopen.trans h.open_fd⟩

theorem Healthy.endInput (h : s.Healthy Inv) : s.endInput.Healthy Inv :=
  h.act .endInputStream (fun _ hop => by cases hop) rfl h.adapter rfl

theorem Healthy.tick (hlaw : A.Lawful Inv) (h : s.Healthy Inv) (ms : ℕ) :
    (s.tick A ms).Healthy Inv := by
  rw [Session.tick]
  split
  · obtain ⟨given, hgiven⟩ := h.adapter
    exact h.act (.tick ms) (fun _ hop => by cases hop) rfl ⟨given, hlaw.tick ms hgiven⟩ rfl
  · exact h

theorem Healthy.receive (h : s.Healthy Inv) (d : δ) (seg : Option TCPSegment) {adapter : α}
    (hadapter : ∃ given, Inv given adapter) : (s.receive A d seg adapter).Healthy Inv := by
  cases seg with
  | none => exact ⟨hadapter, h.regular, h.sized, h.open_fd⟩
  | some seg => exact h.act (.segmentReceived seg) (fun _ hop => by cases hop) rfl hadapter rfl

theorem Healthy.taken (h : s.Healthy Inv) (data : List Byte) : (s.taken data).Healthy Inv :=
  h.act (.write data) (fun _ hop => by cases hop) rfl h.adapter rfl

theorem length_offered_le_bufferSize (s : Session α) :
    s.offered.length ≤ s.tcp.inboundStream.bufferSize :=
  (List.length_take_le _ _).trans (Nat.min_le_right _ _)

theorem Healthy.handed (h : s.Healthy Inv) {n : ℕ} (hn : n ≤ s.offered.length) :
    (s.handed n).Healthy Inv := by
  refine h.act (.pop n) (fun len hop => ?_) rfl h.adapter rfl
  cases hop
  exact hn.trans s.length_offered_le_bufferSize

theorem Healthy.shut (h : s.Healthy Inv) : s.shut.Healthy Inv :=
  ⟨h.adapter, h.regular, h.sized, h.open_fd⟩

/-- What the device and the kernel answer. -/
def Answers (A : FdAdapter α κ δ) (_ : RuleName) (calls : SystemCalls δ) : Prop :=
  (∃ d, calls.received = .ok d ∧ A.Fits d) ∧ calls.kernel.Honest

/-- The only exception: a write to the owner after the socket was shut down for it. -/
def brokenPipe (e : String) : Prop := e = "writev: Broken pipe"

theorem bytesIn_throws {calls : SystemCalls δ} (hkernel : calls.kernel.Honest) (s : Session α)
    (E : String → Prop) : ThrowsOnly E (s.bytesIn calls) := by
  obtain ⟨data, threadData, hread⟩ :=
    FileDescriptor.read_ok hkernel s.threadData s.tcp.sender.stream.remainingCapacity
  obtain ⟨hle, -, -⟩ := FileDescriptor.read_eq_ok hread
  simp only [bytesIn, hread, bind, Except.bind]
  rw [if_neg (not_not_intro (writeSize_of_le hle))]
  split <;> exact .of_ok rfl

theorem bytesOut_throws {calls : SystemCalls δ} (hkernel : calls.kernel.Honest)
    (hopen : s.threadData.wrapper.closed = false) : ThrowsOnly brokenPipe (s.bytesOut calls) := by
  refine ThrowsOnly.bind ?_ fun r hwrite => ?_
  · cases hrefusal : s.threadData.refusal with
    | none =>
      obtain ⟨n, threadData, hwrite⟩ :=
        FileDescriptor.writeSome_ok hkernel hrefusal s.offered_fits
      exact .of_ok hwrite
    | some message =>
      intro e he
      rw [FileDescriptor.writeSome, hrefusal] at he
      cases he
      rw [FileDescriptor.refusal, hopen, if_neg Bool.false_ne_true] at hrefusal
      split at hrefusal
      · exact (Option.some.inj hrefusal).symm
      · cases hrefusal
  · obtain ⟨n, threadData⟩ := r
    dsimp only
    split
    · obtain ⟨threadData', hshut⟩ := FileDescriptor.shutdownWr_ok hkernel threadData
      rw [hshut]
      exact .of_ok rfl
    · exact .of_ok rfl

theorem safe (hlaw : A.Lawful Inv) :
    (eventLoop A).Safe (Answers A) (Healthy Inv) (fun _ _ => True) brokenPipe where
  interested := fun _ _ _ _ _ => trivial
  cancel := by
    intro r s s' hs hcancel
    refine ⟨?_, fun _ _ _ => trivial⟩
    rcases cancel_eq_ok hcancel with ⟨-, rfl⟩ | rfl
    · exact hs.endInput
    · exact hs
  callback := by
    intro r calls s s' hcalls hs _ hcallback
    refine ⟨?_, fun _ _ _ => trivial⟩
    cases r with
    | datagramsIn =>
      obtain ⟨d, seg, adapter, -, hread, rfl⟩ := datagramsIn_eq_ok hcallback
      obtain ⟨given, hgiven⟩ := hs.adapter
      exact hs.receive _ _ ⟨given, hlaw.read hgiven hread⟩
    | bytesIn =>
      obtain ⟨data, -, ⟨rfl, -⟩ | rfl⟩ := bytesIn_eq_ok hcallback
      · exact hs.taken data
      · exact (hs.taken data).endInput
    | bytesOut =>
      obtain ⟨n, -, hle, -, ⟨-, rfl⟩ | ⟨-, -, rfl⟩⟩ := bytesOut_eq_ok hcallback
      · exact (hs.handed hle).shut
      · exact hs.handed hle
    | segmentsOut =>
      obtain ⟨given, hgiven⟩ := hs.adapter
      obtain ⟨adapter, adapterFd, hadapter, hsend⟩ := segmentsOut_eq hlaw hgiven hs.regular
      cases hsend.symm.trans hcallback
      exact ⟨⟨_, hadapter⟩, ⟨hs.regular.sender, List.forall_mem_nil _⟩, hs.sized, hs.open_fd⟩
  cancel_throws := by
    intro r s _
    cases r <;> exact .of_ok rfl
  callback_throws := by
    intro r calls s hcalls hs _
    cases r with
    | datagramsIn =>
      obtain ⟨given, hgiven⟩ := hs.adapter
      obtain ⟨d, hreceived, hfits⟩ := hcalls.1
      obtain ⟨seg, adapter, hread⟩ := hlaw.read_ok hgiven hfits
      change ThrowsOnly _ (s.datagramsIn A calls)
      simp only [datagramsIn, hreceived, hread, bind, Except.bind]
      exact .of_ok rfl
    | bytesIn => exact s.bytesIn_throws hcalls.2 _
    | bytesOut => exact bytesOut_throws hcalls.2 hs.open_fd
    | segmentsOut =>
      obtain ⟨given, hgiven⟩ := hs.adapter
      obtain ⟨adapter, adapterFd, -, hsend⟩ := segmentsOut_eq hlaw hgiven hs.regular
      exact .of_ok hsend
  callback_serves := by
    intro r calls s s' _ hs _ hcallback hcount
    -- rules 1 to 3 use their descriptor, and rule 4 leaves nothing to send
    cases r with
    | datagramsIn =>
      obtain ⟨d, seg, adapter, -, -, rfl⟩ := datagramsIn_eq_ok hcallback
      exact absurd ((hlaw.noteRead _ _).symm.trans hcount.symm) (FDWrapper.addMod_one_ne _)
    | bytesIn =>
      obtain ⟨data, -, ⟨rfl, -⟩ | rfl⟩ := bytesIn_eq_ok hcallback
      · exact absurd hcount.symm (FDWrapper.addMod_one_ne _)
      · exact absurd hcount.symm (FDWrapper.addMod_one_ne _)
    | bytesOut =>
      obtain ⟨n, -, -, -, ⟨-, rfl⟩ | ⟨-, -, rfl⟩⟩ := bytesOut_eq_ok hcallback
      · exact absurd hcount.symm (FDWrapper.addMod_two_ne _)
      · exact absurd hcount.symm (FDWrapper.addMod_one_ne _)
    | segmentsOut =>
      obtain ⟨given, hgiven⟩ := hs.adapter
      obtain ⟨adapter, adapterFd, -, hsend⟩ := segmentsOut_eq hlaw hgiven hs.regular
      cases hsend.symm.trans hcallback
      rfl

end Healthy
end Session

section Threads
variable {A} {Inv : List TCPSegment → α → Prop}

/-- The thread has not lost a rule twice, and its session is in order. -/
structure Sane (Inv : List TCPSegment → α → Prop) (t : Thread α) : Prop where
  healthy : t.session.Healthy Inv
  rules : t.rules.Nodup

/-- The kernel keeps its promises in a turn, and no descriptor is reported as broken. -/
structure Turn.Honest (A : FdAdapter α κ δ) (u : Turn δ) : Prop where
  answers : u.poll.Answers (Session.Answers A)
  sound : u.poll.Sound

/-- Neither a signal nor the destructor of the socket ends the loop in this turn. -/
structure Turn.Undisturbed (u : Turn δ) : Prop where
  running : u.abort = false
  uninterrupted : u.poll ≠ .failed true

/-- What the rules and the clock keep is kept by a turn. -/
theorem Thread.turn_keeps {answers : RuleName → SystemCalls δ → Prop} {I : Session α → Prop}
    {C : RuleName → Session α → Prop} (hkeeps : (eventLoop A).Keeps answers I C)
    (htick : ∀ s ms, I s → I (s.tick A ms)) {t t' : Thread α} {u : Turn δ}
    (hu : u.poll.Answers answers) (hrules : t.rules.Nodup) (hs : I t.session)
    (hturn : t.turn A u = .ok t') : I t'.session ∧ t'.rules.Sublist t.rules := by
  rw [Thread.turn] at hturn
  split at hturn
  · obtain ⟨⟨result, rules, session⟩, hwait, hturn⟩ := bind_eq_ok hturn
    obtain ⟨hsession, hsub⟩ := EventLoop.waitNextEvent_keeps hkeeps hu hrules hs hwait
    dsimp only at hturn
    split at hturn
    · cases hturn
      exact ⟨hsession, hsub⟩
    · cases hturn
      exact ⟨htick session u.elapsed hsession, hsub⟩
  · cases hturn
    exact ⟨hs, List.Sublist.refl _⟩

theorem Sane.turn (hlaw : A.Lawful Inv) {t t' : Thread α} {u : Turn δ} (h : Sane Inv t)
    (hu : u.Honest A) (hturn : t.turn A u = .ok t') : Sane Inv t' := by
  obtain ⟨hhealthy, hsub⟩ := Thread.turn_keeps (Session.safe hlaw).toKeeps
    (fun _ ms hs => hs.tick hlaw ms) hu.answers h.rules h.healthy hturn
  exact ⟨hhealthy, hsub.nodup h.rules⟩

theorem Sane.throws (hlaw : A.Lawful Inv) {t : Thread α} {u : Turn δ} (h : Sane Inv t)
    (hu : u.Honest A) : ThrowsOnly Session.brokenPipe (t.turn A u) := by
  rw [Thread.turn]
  split
  · refine (EventLoop.waitNextEvent_throws (Session.safe hlaw) hu.answers hu.sound h.rules
      h.healthy).bind fun r _ => ?_
    dsimp only
    split <;> exact .of_ok rfl
  · exact .of_ok rfl

/-- The ways to start a thread. -/
inductive Starts (A : FdAdapter α κ δ) (Inv : List TCPSegment → α → Prop) : Thread α → Prop
  | connect (adapter : α) (cTCP : TCPConfig) (cAd : κ) (random : WrappingInt32) (t : Thread α)
      (hinv : Inv [] (A.configure adapter cAd))
      (h : connect A (.unconnected adapter) cTCP cAd random = .ok t) : Starts A Inv t
  | listenAndAccept (adapter : α) (cTCP : TCPConfig) (cAd : κ) (random : WrappingInt32)
      (t : Thread α) (hinv : Inv [] (A.setListening (A.configure adapter cAd) true))
      (h : listenAndAccept A (.unconnected adapter) cTCP cAd random = .ok t) : Starts A Inv t

theorem initializeTCP_eq_ok {config : TCPConfig} {random : WrappingInt32} {adapter : α}
    {phase : Phase} {t : Thread α} (h : initializeTCP config random adapter phase = .ok t) :
    ∃ tcp, TCPConnection.new config random = some tcp ∧
      t = ⟨{ tcp, adapter }, allRules, phase⟩ := by
  rw [initializeTCP] at h
  cases htcp : TCPConnection.new config random with
  | none =>
    rw [htcp] at h
    cases h
  | some tcp =>
    rw [htcp] at h
    exact ⟨tcp, rfl, (Except.ok.inj h).symm⟩

/-- A new thread has a new endpoint, which may have sent its SYN already. -/
theorem Starts.session_eq {t : Thread α} (h : Starts A Inv t) :
    ∃ cfg random tcp adapter, TCPConnection.new cfg random = some tcp ∧ Inv [] adapter ∧
      t.rules.Nodup ∧ t.phase ≠ .finished ∧
      (t.session = { tcp, adapter } ∨ t.session = { tcp := tcp.connect, adapter }) := by
  cases h with
  | connect adapter cTCP cAd random t hinv h =>
    obtain ⟨t₁, hinit, h⟩ := bind_eq_ok h
    obtain ⟨tcp, htcp, rfl⟩ := initializeTCP_eq_ok hinit
    dsimp only at h
    split at h
    · cases h
    · cases h
      exact ⟨cTCP, random, tcp, _, htcp, hinv, nodup_allRules, Phase.noConfusion, Or.inr rfl⟩
  | listenAndAccept adapter cTCP cAd random t hinv h =>
    obtain ⟨tcp, htcp, rfl⟩ := initializeTCP_eq_ok h
    exact ⟨cTCP, random, tcp, _, htcp, hinv, nodup_allRules, Phase.noConfusion, Or.inl rfl⟩

theorem Starts.sane {t : Thread α} (h : Starts A Inv t) : Sane Inv t := by
  obtain ⟨cfg, random, tcp, adapter, htcp, hinv, hrules, -, hsession⟩ := h.session_eq
  have hsized : tcp.receiver.reassembler.Sized := by
    obtain ⟨v, s, hv, -, rfl⟩ := TCPConnection.new_eq_some htcp
    obtain ⟨reassembler, hreassembler, rfl⟩ := TCPReceiver.new_eq_some hv
    exact (StreamReassembler.sized_new hreassembler).1
  have hnew : Session.Healthy Inv { tcp, adapter } :=
    ⟨⟨[], hinv⟩, TCPConnection.regular_new htcp, hsized, rfl⟩
  refine ⟨?_, hrules⟩
  rcases hsession with hsession | hsession
  · rw [hsession]
    exact hnew
  · rw [hsession]
    exact hnew.act .connect (fun _ hop => by cases hop) rfl hnew.adapter rfl

theorem sane_run (hlaw : A.Lawful Inv) {t t' : Thread α} (hstart : Starts A Inv t)
    {turns : List (Turn δ)} (hturns : ∀ u ∈ turns, u.Honest A)
    (hrun : turns.foldlM (Thread.turn A) t = .ok t') : Sane Inv t' :=
  foldlM_keeps (fun _ u hu _ hsane hturn => hsane.turn hlaw (hturns u hu) hturn) hstart.sane hrun

/-- Whatever comes in, and whatever the owner does, the thread is killed by nothing but a broken
pipe. -/
theorem thread_throws_only (hlaw : A.Lawful Inv) {t : Thread α} (hstart : Starts A Inv t)
    {turns : List (Turn δ)} (hturns : ∀ u ∈ turns, u.Honest A) :
    ThrowsOnly Session.brokenPipe (turns.foldlM (Thread.turn A) t) :=
  .foldlM (fun _ u hu _ hsane hturn => hsane.turn hlaw (hturns u hu) hturn)
    (fun _ u hu hsane => hsane.throws hlaw (hturns u hu)) hstart.sane

end Threads

section Small
open Network TCPOverUDPSocketAdapter

def smallAddress (x : Side) : Address :=
  { port := if x = .A then 1 else 2, ipv4 := some (if x = .A then 1 else 2) }

/-- Side A connects, side B listens. -/
def smallStart (x : Side) : Except String (Thread TCPOverUDPSocketAdapter) :=
  let cfg := { source := smallAddress x, destination := smallAddress x.other }
  match x with
  | .A => connect adapter (.unconnected { cfg }) (smallCfg .A) cfg ⟨0⟩
  | .B => listenAndAccept adapter (.unconnected { cfg }) (smallCfg .B) cfg ⟨0⟩

theorem smallStart_isSome (x : Side) : (smallStart x).toOption.isSome = true := by
  cases x <;> decide +kernel

def smallSockets (x : Side) : Thread TCPOverUDPSocketAdapter :=
  (smallStart x).toOption.get (smallStart_isSome x)

theorem smallSockets_starts (x : Side) : Starts adapter Inv (smallSockets x) := by
  have h : smallStart x = .ok (smallSockets x) := eq_ok_of_toOption (Option.some_get _).symm
  dsimp only [smallStart] at h
  cases x with
  | A =>
    refine .connect _ _ _ _ _ (fun b hb => ?_) h
    cases hb
  | B =>
    refine .listenAndAccept _ _ _ _ _ (fun b hb => ?_) h
    cases hb

/-- A datagram comes in, and the owner takes a single byte, and closes if `closes` is set. -/
def slowTurn (closes : Bool) (seg : TCPSegment) : Turn ReceivedDatagram where
  poll := .ready (fun i => { pollin := closes || i == 0, pollout := true }) (fun _ => {
    received := .ok {
      sourceAddress := smallAddress .A, payload := seg.wire (seg.cksumFor 0) }
    kernel := {
      read := fun _ => .ok []
      writev := fun bytes => .ok (min 1 bytes.length)
      shutdown := .ok ()
      close := .ok () } })
  elapsed := 0

theorem slowTurn_honest (closes : Bool) (segs : List TCPSegment)
    (hfits : ∀ seg ∈ segs, (seg.wire (seg.cksumFor 0)).length ≤ UDPSocket.mtu) :
    ∀ u ∈ segs.map (slowTurn closes), u.Honest adapter := by
  intro u hu
  obtain ⟨seg, hseg, rfl⟩ := List.mem_map.mp hu
  refine ⟨fun _ => ⟨⟨_, rfl, hfits seg hseg⟩, fun n => ⟨[], rfl, Nat.zero_le n⟩, fun bytes => ?_,
    rfl, rfl⟩, fun _ => ⟨rfl, rfl⟩⟩
  refine ⟨_, rfl, Nat.min_le_right _ _, fun hne => ?_⟩
  have hpos := List.length_pos_iff.mpr hne
  omega

/-- Two bytes arrive, and the connection is reset before the owner has taken both. -/
def resetEarly : List TCPSegment :=
  [{ header := { seqno := ⟨5⟩, syn := true } }, { header := { seqno := ⟨6⟩ }, payload := [7, 8] },
    { header := { seqno := ⟨8⟩, rst := true } }, { header := { seqno := ⟨8⟩, rst := true } },
    { header := { seqno := ⟨8⟩, rst := true } }]

theorem thread_throws_only_reset :
    ((resetEarly.map (slowTurn false)).foldlM (Thread.turn adapter)
        (smallSockets .B)).toOption.isNone ∧
      ThrowsOnly Session.brokenPipe
        ((resetEarly.map (slowTurn false)).foldlM (Thread.turn adapter) (smallSockets .B)) :=
  ⟨by decide +kernel, thread_throws_only lawful (smallSockets_starts .B)
    (slowTurn_honest false resetEarly (by decide +kernel))⟩

end Small
end TCPSpongeSocket
end Sponge
