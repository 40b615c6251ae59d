import Sponge.ByteStream
import Sponge.BoundedQueue

/-!
# The byte stream over whole runs

A stream whose capacity fits in 32 bits is a bounded queue of bytes: each of its operations does
what the queue's does. Its two counters follow what was accepted and removed modulo `2 ^ 32`.
-/
namespace Sponge
open MachineWords

namespace ByteStream

inductive Op where
  | write (data : List Byte)
  | read (len : ℕ)
  | peek (len : ℕ)
  | pop (len : ℕ)
  | endInput

def step (b : ByteStream) : Op → ByteStream
  | .write data => b.write data
  | .read len => (b.read len).2
  | .peek _ => b
  | .pop len => b.popOutput len
  | .endInput => b.endInput

/-- The callers peek at and pop no more than the stream holds. -/
def InRange (b : ByteStream) : Op → Prop
  | .write _ => True
  | .read _ => True
  | .peek len => len ≤ b.bufferSize
  | .pop len => len ≤ b.bufferSize
  | .endInput => True

def machine : Machine ByteStream Op := ⟨step, InRange⟩

instance (b : ByteStream) (op : Op) : Decidable (machine.enabled b op) := by
  cases op <;> simp only [machine, InRange] <;> infer_instance

def accepted (b : ByteStream) : Op → List Byte
  | .write data => data.take (b.writeSize data)
  | _ => []

/-- The bytes an operation takes off the stream. -/
def removed (b : ByteStream) : Op → List Byte
  | .read len => (b.read len).1
  | .pop len => b.contents.take len
  | _ => []

def queueOps : Op → List (BoundedQueue.Op Byte)
  | .write data => [.put data]
  | .read len => [.take len]
  | .peek _ => []
  | .pop len => [.take len]
  | .endInput => []

/-- The queue a stream stands for. -/
structure Refines (b : ByteStream) (q : BoundedQueue Byte) : Prop where
  wf : b.Wf
  capacity_lt : b.capacity < 2 ^ 32
  capacity_eq : b.capacity = q.capacity
  contents_eq : b.contents = q.items

namespace Refines
variable {b : ByteStream} {q : BoundedQueue Byte}

theorem bufferSize_eq (h : b.Refines q) : b.bufferSize = q.items.length := by
  rw [← h.contents_eq, h.wf.length_contents, bufferSize]

theorem writeSize_eq (h : b.Refines q) (data : List Byte) :
    b.writeSize data = min data.length q.room := by
  rw [h.wf.writeSize_eq, BoundedQueue.room, ← h.capacity_eq, ← h.bufferSize_eq, bufferSize]

theorem take_writeSize (h : b.Refines q) (data : List Byte) :
    data.take (b.writeSize data) = data.take q.room := by
  rw [h.writeSize_eq, List.take_eq_take_iff]
  omega

theorem write (h : b.Refines q) (data : List Byte) : (b.write data).Refines (q.put data) where
  wf := h.wf.write
  capacity_lt := by
    rw [b.write_frame data]
    exact h.capacity_lt
  capacity_eq := by
    rw [b.write_frame data]
    exact h.capacity_eq
  contents_eq := by
    rw [h.wf.contents_write (h.wf.word_of_capacity h.capacity_lt), h.contents_eq,
      h.take_writeSize]
    rfl

theorem popOutput (h : b.Refines q) {len : ℕ} (hlen : len ≤ b.bufferSize) :
    (b.popOutput len).Refines (q.take len) where
  wf := h.wf.popOutput hlen
  capacity_lt := h.capacity_lt
  capacity_eq := h.capacity_eq
  contents_eq := by
    rw [h.wf.contents_popOutput hlen, h.contents_eq]
    rfl

theorem read (h : b.Refines q) (len : ℕ) : (b.read len).2.Refines (q.take len) where
  wf := h.wf.popOutput (b.readLen_le len)
  capacity_lt := h.capacity_lt
  capacity_eq := h.capacity_eq
  contents_eq := by
    rw [h.wf.contents_read, h.contents_eq]
    rfl

theorem endInput (h : b.Refines q) : b.endInput.Refines q :=
  ⟨h.wf.endInput, h.capacity_lt, h.capacity_eq, h.contents_eq⟩

/-- What `peek_output` returns is the front of the queue. -/
theorem peekOutput_eq (h : b.Refines q) {len : ℕ} (hlen : len ≤ b.bufferSize) :
    b.peekOutput len = q.items.take len := by
  rw [← h.contents_eq, contents, ← bufferSize, List.take_take, Nat.min_eq_left hlen, peekOutput]

end Refines

theorem refines_new {capacity : ℕ} {b : ByteStream} (hcap : capacity < 2 ^ 32)
    (h : new capacity = some b) : b.Refines ⟨capacity, [], Nat.zero_le _⟩ := by
  have hwf := wf_new h
  obtain ⟨-, rfl⟩ := new_eq_some h
  exact ⟨hwf, hcap, rfl, List.take_zero⟩

theorem simulates : machine.Simulates BoundedQueue.machine queueOps Refines := by
  intro b q op h hop
  cases op with
  | write data => exact h.write data
  | read len => exact h.read len
  | peek len => exact h
  | pop len => exact h.popOutput hop
  | endInput => exact h.endInput

theorem accepted_eq (b : ByteStream) (q : BoundedQueue Byte) (op : Op) (h : b.Refines q) :
    b.accepted op = BoundedQueue.machine.collect BoundedQueue.accepted q (queueOps op) := by
  cases op with
  | write data => exact h.take_writeSize data
  | read len => rfl
  | peek len => rfl
  | pop len => rfl
  | endInput => rfl

theorem removed_eq (b : ByteStream) (q : BoundedQueue Byte) (op : Op) (h : b.Refines q) :
    b.removed op = BoundedQueue.machine.collect BoundedQueue.removed q (queueOps op) := by
  cases op with
  | write data => rfl
  | read len => exact (read_fst _ len).trans (congrArg (List.take len) h.contents_eq)
  | peek len => rfl
  | pop len => exact congrArg (List.take len) h.contents_eq
  | endInput => rfl

section Run
variable {capacity : ℕ} {b₀ : ByteStream} {ops : List Op}

/-- After every run the stream stands for the queue after the queue's operations. -/
theorem refines_run (hcap : capacity < 2 ^ 32) (h : new capacity = some b₀)
    (hops : machine.Admits b₀ ops) :
    ∃ q, (machine.run b₀ ops).Refines q ∧ q.capacity = capacity ∧
      machine.collect removed b₀ ops ++ q.items = machine.collect accepted b₀ ops := by
  have hnew := refines_new hcap h
  refine ⟨_, simulates.run hnew hops, BoundedQueue.capacity_run _ _, ?_⟩
  rw [simulates.collect_eq (fun b q op hR _ => removed_eq b q op hR) hnew hops,
    simulates.collect_eq (fun b q op hR _ => accepted_eq b q op hR) hnew hops]
  exact BoundedQueue.removed_append_items _ _

theorem bounded_fifo (hcap : capacity < 2 ^ 32) (h : new capacity = some b₀)
    (hops : machine.Admits b₀ ops) :
    let b := machine.run b₀ ops
    let bytesIn := machine.collect accepted b₀ ops
    let bytesOut := machine.collect removed b₀ ops
    (∀ data, b.accepted (.write data) = data.take (min data.length (capacity - b.bufferSize))) ∧
    bytesOut ++ b.buffer.take b.bufferSize = bytesIn ∧
    (∀ len ≤ b.bufferSize, b.peekOutput len = (bytesIn.drop bytesOut.length).take len ∧
      b.step (.peek len) = b) ∧
    b.bufferSize ≤ capacity := by
  obtain ⟨q, hq, hqcap, hlaw⟩ := refines_run hcap h hops
  refine ⟨fun data => ?_, ?_, fun len hlen => ⟨?_, rfl⟩, ?_⟩
  · rw [accepted, hq.writeSize_eq, BoundedQueue.room, hqcap, ← hq.bufferSize_eq]
  · rw [← hlaw, ← hq.contents_eq]
    rfl
  · rw [hq.peekOutput_eq hlen, ← hlaw, List.drop_left]
  · rw [hq.bufferSize_eq, ← hqcap]
    exact q.length_le

theorem bounded_fifo_fills :
    ∃ b₀, new 2 = some b₀ ∧
      machine.Admits b₀ [.write [7, 8, 9], .pop 1, .write [5], .peek 2, .read 1, .endInput] ∧
      (machine.run b₀ [.write [7, 8, 9], .pop 1, .write [5], .peek 2, .read 1, .endInput]).bufferSize
        ≤ 2 := by
  have hops : machine.Admits ⟨2, [space, space], 0, 0, 0, false, false⟩
      [.write [7, 8, 9], .pop 1, .write [5], .peek 2, .read 1, .endInput] := by decide
  exact ⟨_, rfl, hops, (bounded_fifo (by decide) rfl hops).2.2.2⟩

theorem length_accepted_write (b : ByteStream) (data : List Byte) :
    (b.accepted (.write data)).length = b.writeSize data := by
  simp [accepted, b.writeSize_le_length data]

theorem bytesWritten_step (b : ByteStream) (op : Op) (hlt : b.bytesWritten < 2 ^ 32) :
    (b.step op).bytesWritten = addMod 32 b.bytesWritten (b.accepted op).length := by
  cases op with
  | write data => rw [step, b.write_frame data, length_accepted_write]
  | read len => exact (addMod_zero_right hlt).symm
  | peek len => exact (addMod_zero_right hlt).symm
  | pop len => exact (addMod_zero_right hlt).symm
  | endInput => exact (addMod_zero_right hlt).symm

theorem bytesRead_step {b : ByteStream} {op : Op} (h : b.Wf) (hop : b.InRange op)
    (hlt : b.bytesRead < 2 ^ 32) :
    (b.step op).bytesRead = addMod 32 b.bytesRead (b.removed op).length := by
  have hlen := h.length_contents
  cases op with
  | write data =>
    rw [step, b.write_frame data]
    exact (addMod_zero_right hlt).symm
  | read len =>
    rw [removed, read_fst, List.length_take, hlen, ← b.readLen_eq len]
    rfl
  | peek len => exact (addMod_zero_right hlt).symm
  | pop len =>
    have hpop : len ≤ b.endOfBuffer := hop
    rw [removed, List.length_take, hlen, Nat.min_eq_left hpop]
    rfl
  | endInput => exact (addMod_zero_right hlt).symm

/-- The counters after every run, whatever passed through. -/
theorem counters_run (hcap : capacity < 2 ^ 32) (h : new capacity = some b₀)
    (hops : machine.Admits b₀ ops) :
    (machine.run b₀ ops).bytesWritten = (machine.collect accepted b₀ ops).length % 2 ^ 32 ∧
      (machine.run b₀ ops).bytesRead = (machine.collect removed b₀ ops).length % 2 ^ 32 := by
  refine machine.run_induction (P := fun ops =>
    (machine.run b₀ ops).bytesWritten = (machine.collect accepted b₀ ops).length % 2 ^ 32 ∧
      (machine.run b₀ ops).bytesRead = (machine.collect removed b₀ ops).length % 2 ^ 32) ?_ ?_ hops
  · obtain ⟨-, rfl⟩ := new_eq_some h
    exact ⟨rfl, rfl⟩
  · rintro past op hpast hop ⟨hwritten, hread⟩
    obtain ⟨q, hq, -⟩ := refines_run hcap h hpast
    have hw := bytesWritten_step _ op (hwritten ▸ Nat.mod_lt _ (by decide))
    have hr := bytesRead_step hq.wf hop (hread ▸ Nat.mod_lt _ (by decide))
    rw [hwritten, addMod] at hw
    rw [hread, addMod] at hr
    simp only [Machine.run_snoc, Machine.collect_snoc, List.length_append]
    exact ⟨hw.trans (by omega), hr.trans (by omega)⟩

theorem accounting_iff (hcap : capacity < 2 ^ 32) (h : new capacity = some b₀)
    (hops : machine.Admits b₀ ops) :
    let b := machine.run b₀ ops
    let bytesIn := machine.collect accepted b₀ ops
    let bytesOut := machine.collect removed b₀ ops
    (b.bytesWritten = bytesIn.length ∧ b.bytesRead = bytesOut.length ∧
      b.bytesWritten = b.bytesRead + b.bufferSize) ↔ bytesIn.length < 2 ^ 32 := by
  obtain ⟨q, hq, -, hlaw⟩ := refines_run hcap h hops
  obtain ⟨hwritten, hread⟩ := counters_run hcap h hops
  intro b bytesIn bytesOut
  have hlen : bytesOut.length + b.bufferSize = bytesIn.length := by
    rw [hq.bufferSize_eq, ← List.length_append, hlaw]
  constructor
  · rintro ⟨hexact, -, -⟩
    rw [← hexact, hwritten]
    exact Nat.mod_lt _ (by decide)
  · intro hlt
    have hin : b.bytesWritten = bytesIn.length := hwritten.trans (Nat.mod_eq_of_lt hlt)
    have hsmall : bytesOut.length < 2 ^ 32 := by omega
    have hout : b.bytesRead = bytesOut.length := hread.trans (Nat.mod_eq_of_lt hsmall)
    exact ⟨hin, hout, by omega⟩

theorem accounting_small :
    ∃ b₀, new 2 = some b₀ ∧ machine.Admits b₀ [.write [7, 8, 9], .read 1, .pop 1] ∧
      (machine.run b₀ [.write [7, 8, 9], .read 1, .pop 1]).bytesWritten = 2 := by
  have hnew : new 2 = some ⟨2, [space, space], 0, 0, 0, false, false⟩ := rfl
  have hops : machine.Admits ⟨2, [space, space], 0, 0, 0, false, false⟩
      [.write [7, 8, 9], .read 1, .pop 1] := by decide
  exact ⟨_, hnew, hops, ((accounting_iff (by decide) hnew hops).mpr (by decide)).1⟩

/-- A stream filled to its capacity, emptied and filled again. -/
theorem refill (hcap : capacity < 2 ^ 32) (h : new capacity = some b₀) {data : List Byte}
    (hdata : data.length = capacity) :
    machine.Admits b₀ [.write data, .pop capacity, .write data] ∧
      machine.collect accepted b₀ [.write data, .pop capacity, .write data] = data ++ data := by
  have hnew := refines_new hcap h
  have htake : data.take capacity = data := List.take_of_length_le hdata.le
  have hfull := hnew.write data
  have hsize : (b₀.write data).bufferSize = capacity := by
    rw [hfull.bufferSize_eq]
    exact (congrArg List.length htake).trans hdata
  have hempty := hfull.popOutput hsize.ge
  have hroom : (((⟨capacity, [], Nat.zero_le _⟩ : BoundedQueue Byte).put data).take
      capacity).room = capacity := by
    change capacity - ((data.take capacity).drop capacity).length = capacity
    rw [htake, ← hdata, List.drop_length]
    rfl
  refine ⟨⟨trivial, hsize.ge, trivial, trivial⟩, ?_⟩
  rw [Machine.collect_cons, Machine.collect_cons, Machine.collect_cons, Machine.collect_nil,
    List.append_nil]
  congr 1
  · exact (hnew.take_writeSize data).trans htake
  · exact (hempty.take_writeSize data).trans (by rw [hroom, htake])

theorem bytesWritten_wraps :
    ∃ b₀, new (2 ^ 31) = some b₀ ∧
      let data := List.replicate (2 ^ 31) space
      let ops := [Op.write data, .pop (2 ^ 31), .write data]
      machine.Admits b₀ ops ∧ (machine.collect accepted b₀ ops).length = 2 ^ 32 ∧
        (machine.run b₀ ops).bytesWritten = 0 := by
  have hnew : new (2 ^ 31) =
      some ⟨2 ^ 31, List.replicate (2 ^ 31) space, 0, 0, 0, false, false⟩ := if_pos (by decide)
  have hdata : (List.replicate (2 ^ 31) space).length = 2 ^ 31 := List.length_replicate
  obtain ⟨hops, haccepted⟩ := refill (by decide) hnew hdata
  obtain ⟨hwritten, -⟩ := counters_run (by decide) hnew hops
  have hlen := congrArg List.length haccepted
  rw [List.length_append, hdata] at hlen
  rw [hlen] at hwritten
  exact ⟨_, hnew, hops, hlen, hwritten⟩

end Run

/-- The public calls, with the one that only sets the error flag. -/
inductive Call where
  | op (op : Op)
  | setError

def callStep (b : ByteStream) : Call → ByteStream
  | .op op => b.step op
  | .setError => b.setError

def CallInRange (b : ByteStream) : Call → Prop
  | .op op => b.InRange op
  | .setError => True

/-- The machine of the public calls; its runs need not be in range, those it admits are. -/
def calls : Machine ByteStream Call := ⟨callStep, CallInRange⟩

instance (b : ByteStream) : ∀ call, Decidable (calls.enabled b call)
  | .op op => inferInstanceAs (Decidable (machine.enabled b op))
  | .setError => .isTrue trivial

section AnyLength
variable {capacity len : ℕ} {b b₀ : ByteStream} {past : List Call}

theorem readLen_of_le (h : len ≤ b.bufferSize) : b.readLen len = len := by
  rw [readLen_eq]
  exact Nat.min_eq_left h

/-- Past the end the two differ at least in the end marker, which `read` sets to zero. -/
theorem read_eq_iff (hend : b.endOfBuffer < 2 ^ 32) (hlen : len < 2 ^ 32) :
    b.read len = (b.peekOutput len, b.popOutput len) ↔ len ≤ b.bufferSize := by
  constructor
  · intro h
    by_contra hlt
    have hpast : b.endOfBuffer < len := Nat.not_le.mp hlt
    have hmark := congrArg (fun r => r.2.endOfBuffer) h
    simp only [read, popOutput, readLen_eq, Nat.min_eq_right hpast.le, subMod] at hmark
    omega
  · intro h
    rw [read, readLen_of_le h]

theorem endOfBuffer_callStep_lt (hend : b.endOfBuffer < 2 ^ 32) (call : Call) :
    (b.callStep call).endOfBuffer < 2 ^ 32 := by
  cases call with
  | setError => exact hend
  | op op =>
    cases op with
    | write data => exact (writeLoop_frame _ b).2.2 hend
    | read n => exact Nat.mod_lt _ (Nat.two_pow_pos 32)
    | peek n => exact hend
    | pop n => exact Nat.mod_lt _ (Nat.two_pow_pos 32)
    | endInput => exact hend

theorem endOfBuffer_run_lt (hend : b.endOfBuffer < 2 ^ 32) (past : List Call) :
    (calls.run b past).endOfBuffer < 2 ^ 32 := by
  induction past generalizing b with
  | nil => exact hend
  | cons call past ih => exact ih (endOfBuffer_callStep_lt hend call)

theorem Wf.callStep {call : Call} (h : b.Wf) (hcall : b.CallInRange call) :
    (b.callStep call).Wf ∧ (b.callStep call).capacity = b.capacity := by
  cases call with
  | setError => exact ⟨h.setError, rfl⟩
  | op op =>
    cases op with
    | write data =>
      refine ⟨h.write, ?_⟩
      rw [ByteStream.callStep, step, b.write_frame data]
    | read n => exact ⟨h.popOutput (b.readLen_le n), rfl⟩
    | peek n => exact ⟨h, rfl⟩
    | pop n => exact ⟨h.popOutput hcall, rfl⟩
    | endInput => exact ⟨h.endInput, rfl⟩

theorem wf_run_calls (h : new capacity = some b₀) (hpast : calls.Admits b₀ past) :
    (calls.run b₀ past).Wf ∧ (calls.run b₀ past).capacity = capacity := by
  refine calls.invariant (I := fun b => b.Wf ∧ b.capacity = capacity) ?_ ?_ hpast
  · refine ⟨wf_new h, ?_⟩
    rw [(new_eq_some h).2]
  · intro b call hb hcall
    have hstep := hb.1.callStep hcall
    exact ⟨hstep.1, hstep.2.trans hb.2⟩

/-- `read` is a peek and a pop exactly for the lengths that are in range, and the promises about
a peek and a pop go with it. -/
theorem read_eq_peek_pop_iff (h : new capacity = some b₀) (past : List Call)
    (hlen : len < 2 ^ 32) :
    let b := calls.run b₀ past
    (b.read len = (b.peekOutput len, b.popOutput len) ↔ len ≤ b.bufferSize) ∧
    (calls.Admits b₀ past →
      (b.read len = (b.peekOutput len, b.popOutput len) ∧ b.peekOutput len <+: b.contents ∧
        (b.popOutput len).bufferSize ≤ capacity ↔ len ≤ b.bufferSize)) := by
  have hend : (calls.run b₀ past).endOfBuffer < 2 ^ 32 :=
    endOfBuffer_run_lt (wf_new h).end_lt past
  refine ⟨read_eq_iff hend hlen, fun hpast => ⟨fun hall => (read_eq_iff hend hlen).mp hall.1, ?_⟩⟩
  intro hle
  obtain ⟨hwf, hcapacity⟩ := wf_run_calls h hpast
  refine ⟨(read_eq_iff hend hlen).mpr hle, List.take_prefix_take_left hle, ?_⟩
  have hmark := hwf.endOfBuffer_popOutput hle
  have hend_le := hwf.end_le
  rw [bufferSize, hmark]
  omega

theorem read_eq_peek_pop_one :
    ∃ b₀, new 2 = some b₀ ∧
      let b := calls.run b₀ [.op (.write [7, 8]), .setError]
      b.read 1 = (b.peekOutput 1, b.popOutput 1) ∧ b.peekOutput 1 <+: b.contents ∧
        (b.popOutput 1).bufferSize ≤ 2 := by
  have hnew : new 2 = some ⟨2, [space, space], 0, 0, 0, false, false⟩ := rfl
  have hiff := read_eq_peek_pop_iff hnew [.op (.write [7, 8]), .setError]
    (show 1 < 2 ^ 32 by decide)
  exact ⟨_, hnew, (hiff.2 (by decide)).mpr (by decide)⟩

/-- A stream that holds one byte: a peek of two shows the blank behind it, and a pop of two lets
the size wrap. -/
theorem read_ne_peek_pop_two :
    ∃ b₀, new 2 = some b₀ ∧
      let b := calls.run b₀ [.op (.write [7])]
      b.read 2 = ([7], b.popOutput 1) ∧ b.peekOutput 2 = [7, space] ∧ b.contents = [7] ∧
        (b.popOutput 2).bufferSize = 2 ^ 32 - 1 ∧
        b.read 2 ≠ (b.peekOutput 2, b.popOutput 2) :=
  ⟨_, rfl, by decide⟩

end AnyLength
end ByteStream
end Sponge
