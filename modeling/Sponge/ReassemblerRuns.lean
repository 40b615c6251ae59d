import Sponge.Runs
import Sponge.ReassemblerDelivery

/-!
# Runs of a reassembler fed from one stream

The set-based specification: an index is accepted once some push contained it
while it lay inside the window. The bitmap, the sliding buffer and the pending
count are shown to compute it after every run.
-/
namespace Sponge
open SlidingWindow
namespace StreamReassembler

inductive Op where
  | push (data : List Byte) (index : ℕ) (eof : Bool)
  | read (len : ℕ)
  | pop (len : ℕ)
  deriving DecidableEq

def step (r : StreamReassembler) : Op → StreamReassembler
  | .push data index eof => r.pushSubstring data index eof
  | .read len => (r.read len).2
  | .pop len => r.popOutput len

/-- Pushes carry true substrings of `S`; pops stay within the buffered bytes. -/
def Enabled (S : List Byte) (r : StreamReassembler) : Op → Prop
  | .push data index eof => IsSlice S index data ∧ (eof = true → index + data.length = S.length)
  | .read _ => True
  | .pop len => len ≤ r.output.bufferSize

def machine (S : List Byte) : Machine StreamReassembler Op := ⟨step, Enabled S⟩

instance (S : List Byte) (r : StreamReassembler) : ∀ op, Decidable ((machine S).enabled r op)
  | .push data index _ => inferInstanceAs (Decidable (IsSlice S index data ∧ (_ → _)))
  | .read _ => .isTrue trivial
  | .pop len => inferInstanceAs (Decidable (len ≤ r.output.bufferSize))

/-- The bytes an operation removes from the output. -/
def removed (r : StreamReassembler) : Op → List Byte
  | .push _ _ _ => []
  | .read len => (r.read len).1
  | .pop len => r.output.peekOutput len

/-- All bytes ever written to the output: those removed by the run, then those still buffered. -/
def everWritten (S : List Byte) (r : StreamReassembler) (ops : List Op) : List Byte :=
  (machine S).collect removed r ops ++ ((machine S).run r ops).output.contents

/-- The operation is a push containing `k` while `k` lies inside the window. -/
def Accepts (k : ℕ) (r : StreamReassembler) : Op → Prop
  | .push data index _ =>
    index ≤ k ∧ k < index + data.length ∧ k < r.capacity + r.output.bytesRead
  | _ => False

def Accepted (S : List Byte) (r : StreamReassembler) (ops : List Op) (k : ℕ) : Prop :=
  (machine S).Occurs (Accepts k) r ops

/-- The operation is an end-of-stream push whose end lies inside the window. -/
def EndsInWindow (S : List Byte) (r : StreamReassembler) : Op → Prop
  | .push _ _ eof => eof = true ∧ S.length ≤ r.capacity + r.output.bytesRead
  | _ => False

theorem peekOutput_eq {b : ByteStream} {len : ℕ} (hlen : len ≤ b.endOfBuffer) :
    b.peekOutput len = b.contents.take len := by
  rw [ByteStream.peekOutput, ByteStream.contents, List.take_take, Nat.min_eq_left hlen]

theorem Represents.step {S taken : List Byte} {r : StreamReassembler} {op : Op}
    (h : Represents S taken r) (hS : S.length < 2 ^ 32) (hop : Enabled S r op) :
    Represents S (taken ++ removed r op) (r.step op) := by
  cases op with
  | push data index eof =>
    rw [removed, List.append_nil]
    exact (h.toFilled.pushSubstring hS (Or.inr hop.1) eof).represents
  | read len => exact h.read hS
  | pop len =>
    rw [removed, peekOutput_eq hop]
    exact h.popOutput hS hop

theorem Represents.holds_step {S taken : List Byte} {r : StreamReassembler} {op : Op}
    (h : Represents S taken r) (hS : S.length < 2 ^ 32) (hop : Enabled S r op) (k : ℕ) :
    (r.step op).Holds k ↔ r.Holds k ∨ Accepts k r op := by
  cases op with
  | push data index eof => exact (h.toFilled.pushSubstring hS (Or.inr hop.1) eof).holds_iff k
  | read len => exact (or_iff_left id).symm
  | pop len => exact (or_iff_left id).symm

section Run
variable {capacity : ℕ} {r₀ : StreamReassembler} {S : List Byte} {ops : List Op}
  (hnew : new capacity = some r₀) (hS : S.length < 2 ^ 32)
include hnew hS

/-- Along every run the reassembler represents `S` and holds exactly the accepted indices. -/
theorem represents_run (hops : (machine S).Admits r₀ ops) :
    Represents S ((machine S).collect removed r₀ ops) ((machine S).run r₀ ops) ∧
      ∀ k, ((machine S).run r₀ ops).Holds k ↔ Accepted S r₀ ops k := by
  refine (machine S).run_induction (P := fun ops =>
    Represents S ((machine S).collect removed r₀ ops) ((machine S).run r₀ ops) ∧
      ∀ k, ((machine S).run r₀ ops).Holds k ↔ Accepted S r₀ ops k) ?_ ?_ hops
  · have hrep := represents_new hnew S
    refine ⟨hrep, fun k => iff_of_false ?_ (Machine.occurs_nil _ _ _)⟩
    intro hk
    obtain ⟨output, hout, rfl⟩ := new_eq_some hnew
    obtain ⟨-, rfl⟩ := ByteStream.new_eq_some hout
    have := (hrep.holds_of_num_eq_zero rfl k).mp hk
    exact Nat.not_lt_zero k this
  · intro past op _ hop ih
    obtain ⟨hrep, hheld⟩ := ih
    simp only [Machine.run_snoc, Machine.collect_snoc]
    refine ⟨hrep.step hS hop, fun k => ?_⟩
    rw [Accepted, Machine.occurs_snoc, ← Accepted, ← hheld k]
    exact hrep.holds_step hS hop k

end Run

/-- The pending count is the number of held indices behind the written ones. -/
theorem Represents.num_eq_ncard {S taken : List Byte} {r : StreamReassembler}
    (h : Represents S taken r) :
    r.numUnassembledBytes = {k | r.output.bytesWritten ≤ k ∧ r.Holds k}.ncard := by
  have himage : {k | r.output.bytesWritten ≤ k ∧ r.Holds k} =
      (fun p => r.output.bytesWritten + p) '' setPositions r.written := by
    ext k
    simp only [Set.mem_ofPred_eq, Set.mem_image, setPositions, Holds]
    constructor
    · rintro ⟨hle, hk | ⟨-, hk⟩⟩
      · omega
      · exact ⟨k - r.output.bytesWritten, hk, by omega⟩
    · rintro ⟨p, hp, rfl⟩
      exact ⟨by omega, Or.inr ⟨by omega, by rwa [Nat.add_sub_cancel_left]⟩⟩
  rw [himage, Set.ncard_image_of_injective _ (fun p q hpq => by simpa using hpq),
    ncard_setPositions, h.num_eq]

/-- Reassembly meets the set-based specification: the output is the longest initial part of
`S` all of whose indices were accepted, and the pending count is the number of the others. -/
theorem reassembly_correct {capacity : ℕ} {r₀ : StreamReassembler}
    (hnew : new capacity = some r₀) {S : List Byte} (hS : S.length < 2 ^ 32) {ops : List Op}
    (hops : (machine S).Admits r₀ ops) :
    ∃ m, IsGreatest {m | ∀ k < m, Accepted S r₀ ops k} m ∧ m ≤ S.length ∧
      everWritten S r₀ ops = S.take m ∧
      ((machine S).run r₀ ops).unassembledBytes = {k | m ≤ k ∧ Accepted S r₀ ops k}.ncard := by
  obtain ⟨hrep, hheld⟩ := represents_run hnew hS hops
  refine ⟨((machine S).run r₀ ops).output.bytesWritten, ⟨?_, ?_⟩, hrep.bytesWritten_le,
    hrep.written_eq, ?_⟩
  · intro k hk
    exact (hheld k).mp (Or.inl hk)
  · intro m hm
    by_contra hlt
    exact hrep.not_holds_bytesWritten ((hheld _).mpr (hm _ (by omega)))
  · simp only [← hheld]
    exact hrep.num_eq_ncard

theorem reassembly_correct_swapped :
    ∃ r₀, new 2 = some r₀ ∧
      ∃ m, IsGreatest {m | ∀ k < m, Accepted [7, 8, 9] r₀
          [.push [8] 1 false, .push [7] 0 false, .read 1, .push [7, 8, 9] 0 true] k} m ∧
        m ≤ [7, 8, 9].length ∧
        everWritten [7, 8, 9] r₀
          [.push [8] 1 false, .push [7] 0 false, .read 1, .push [7, 8, 9] 0 true] =
            [7, 8, 9].take m ∧
        ((machine [7, 8, 9]).run r₀
          [.push [8] 1 false, .push [7] 0 false, .read 1, .push [7, 8, 9] 0 true]).unassembledBytes =
            {k | m ≤ k ∧ Accepted [7, 8, 9] r₀
              [.push [8] 1 false, .push [7] 0 false, .read 1, .push [7, 8, 9] 0 true] k}.ncard :=
  ⟨_, rfl, reassembly_correct (show new 2 = some _ from rfl) (by decide) (by decide)⟩

section EndOfStream
variable {S taken : List Byte} {r : StreamReassembler} {op : Op}

/-- An empty end-of-stream push inside the window may come only when the last byte of `S`
is already held, or when `S` has no byte. -/
def EofTimely (S : List Byte) (r : StreamReassembler) : Op → Prop
  | .push data _ eof => eof = true → data = [] → S.length ≤ r.capacity + r.output.bytesRead →
      S = [] ∨ r.Holds (S.length - 1)
  | _ => True

/-- The end of the output agrees with the end of `S`. -/
structure EndAgrees (S : List Byte) (arrived : Prop) (r : StreamReassembler) : Prop where
  received_iff : r.receivedEOF = true ↔ arrived
  last_held : r.receivedEOF = true → S = [] ∨ r.Holds (S.length - 1)
  ended_iff : r.output.isInputEnded = true ↔ r.receivedEOF = true ∧ r.output.bytesWritten = S.length

theorem Represents.num_eq_zero_of_complete (h : Represents S taken r)
    (hw : r.output.bytesWritten = S.length) : r.numUnassembledBytes = 0 := by
  rw [h.num_eq, List.count_eq_zero]
  intro hmem
  obtain ⟨p, hp⟩ := List.mem_iff_getElem?.mp hmem
  have := (h.flag_byte p hp).1
  omega

theorem Represents.complete_of_last_held (h : Represents S taken r)
    (hlast : S = [] ∨ r.Holds (S.length - 1)) (hnum : r.numUnassembledBytes = 0) :
    r.output.bytesWritten = S.length := by
  have hle := h.bytesWritten_le
  rcases hlast with rfl | hlast
  · simpa using hle
  · have := (h.holds_of_num_eq_zero hnum _).mp hlast
    omega

/-- An empty push without end of stream changes nothing, whatever its index. -/
theorem EndAgrees.push_nil {arrived : Prop} (ha : EndAgrees S arrived r) (h : Represents S taken r)
    (hS : S.length < 2 ^ 32) (index : ℕ) :
    EndAgrees S arrived (r.pushSubstring [] index false) := by
  have hp : Pushed S taken r [] index false (r.pushSubstring [] index false) :=
    h.toFilled.pushSubstring hS (Or.inl rfl) false
  have hrec := hp.receivedEOF_eq
  rw [latchEOF_eq_self (by simp)] at hrec
  have hholds : ∀ k, (r.pushSubstring [] index false).Holds k ↔ r.Holds k := by
    intro k
    rw [hp.holds_iff, List.length_nil]
    constructor
    · rintro (hk | hk)
      · exact hk
      · omega
    · exact Or.inl
  have hsame : (r.pushSubstring [] index false).output.bytesWritten = r.output.bytesWritten := by
    refine le_antisymm ?_ hp.bytesWritten_le
    by_contra hlt
    exact h.not_holds_bytesWritten ((hholds _).mp (Or.inl (by omega)))
  refine ⟨hrec ▸ ha.received_iff, ?_, ?_⟩
  · intro hr
    rw [hholds]
    exact ha.last_held (hrec ▸ hr)
  · rw [hp.ended_eq, Bool.or_eq_true, Bool.and_eq_true, beq_iff_eq, ha.ended_iff, hsame, hrec]
    constructor
    · rintro (hend | ⟨hr, hnum⟩)
      · exact hend
      · refine ⟨hr, ?_⟩
        rw [← hsame]
        refine hp.represents.complete_of_last_held ?_ hnum
        rw [hholds]
        exact ha.last_held hr
    · exact Or.inl

theorem EndAgrees.step {arrived : Prop} (ha : EndAgrees S arrived r) (h : Represents S taken r)
    (hS : S.length < 2 ^ 32) (hop : Enabled S r op) (htimely : EofTimely S r op) :
    EndAgrees S (arrived ∨ EndsInWindow S r op) (r.step op) := by
  cases op with
  | read len =>
    exact ⟨ha.received_iff.trans (or_iff_left id).symm, ha.last_held, ha.ended_iff⟩
  | pop len =>
    exact ⟨ha.received_iff.trans (or_iff_left id).symm, ha.last_held, ha.ended_iff⟩
  | push data index eof =>
    obtain ⟨hslice, hend⟩ := hop
    have hp := h.toFilled.pushSubstring hS (Or.inr hslice) eof
    have hbound := hslice.end_le
    have hrec := hp.receivedEOF_eq
    rw [h.toFilled.receivedEOF_latchEOF hS (by omega)] at hrec
    -- the flag is new exactly when this push ends inside the window
    have hrec_iff : (r.pushSubstring data index eof).receivedEOF = true ↔
        r.receivedEOF = true ∨ EndsInWindow S r (.push data index eof) := by
      rw [hrec]
      rw [Bool.or_eq_true, Bool.and_eq_true, decide_eq_true_iff]
      refine or_congr Iff.rfl (and_congr_right fun he => ?_)
      rw [hend he, windowEnd]
    have hlast : (r.pushSubstring data index eof).receivedEOF = true →
        S = [] ∨ (r.pushSubstring data index eof).Holds (S.length - 1) := by
      intro hr
      rcases hrec_iff.mp hr with hold | ⟨he, hle⟩
      · exact (ha.last_held hold).imp id (fun hk => (hp.holds_iff _).mpr (Or.inl hk))
      · have hfull := hend he
        by_cases hdata : data = []
        · exact (htimely he hdata hle).imp id (fun hk => (hp.holds_iff _).mpr (Or.inl hk))
        · have hpos := List.length_pos_iff.mpr hdata
          exact Or.inr ((hp.holds_iff _).mpr (Or.inr ⟨by omega, by omega, by
            rw [windowEnd]; omega⟩))
    refine ⟨hrec_iff.trans (or_congr ha.received_iff Iff.rfl), hlast, ?_⟩
    change (r.pushSubstring data index eof).output.isInputEnded = true ↔ _
    rw [hp.ended_eq, Bool.or_eq_true, Bool.and_eq_true, beq_iff_eq]
    constructor
    · rintro (hold | ⟨hr, hnum⟩)
      · obtain ⟨hr, hw⟩ := ha.ended_iff.mp hold
        have hmono := hp.bytesWritten_le
        have hle := hp.represents.bytesWritten_le
        exact ⟨hrec_iff.mpr (Or.inl hr), by
          change (r.pushSubstring data index eof).output.bytesWritten = _; omega⟩
      · exact ⟨hr, hp.represents.complete_of_last_held (hlast hr) hnum⟩
    · rintro ⟨hr, hw⟩
      exact Or.inr ⟨hr, hp.represents.num_eq_zero_of_complete hw⟩

/-- After the run the output has ended exactly when an end-of-stream push came inside the
window and all of `S` has been written. -/
def EndsExactly (S : List Byte) (r : StreamReassembler) (ops : List Op) : Prop :=
  ((machine S).run r ops).output.inputEnded = true ↔
    (machine S).Occurs (EndsInWindow S) r ops ∧ everWritten S r ops = S

end EndOfStream

theorem endAgrees_run {capacity : ℕ} {r₀ : StreamReassembler} (hnew : new capacity = some r₀)
    {S : List Byte} (hS : S.length < 2 ^ 32) {ops : List Op}
    (hops : ((machine S).restrict (EofTimely S)).Admits r₀ ops) :
    EndAgrees S ((machine S).Occurs (EndsInWindow S) r₀ ops) ((machine S).run r₀ ops) := by
  refine ((machine S).restrict (EofTimely S)).run_induction (P := fun ops =>
    EndAgrees S ((machine S).Occurs (EndsInWindow S) r₀ ops) ((machine S).run r₀ ops)) ?_ ?_ hops
  · obtain ⟨output, hout, rfl⟩ := new_eq_some hnew
    obtain ⟨-, rfl⟩ := ByteStream.new_eq_some hout
    exact ⟨by simp, by simp, by simp⟩
  · intro past op hpast hop ih
    obtain ⟨hrep, -⟩ := represents_run hnew hS ((machine S).admits_of_restrict hpast)
    rw [Machine.run_snoc, Machine.occurs_snoc]
    exact ih.step hrep hS hop.1 hop.2

/-- If every empty end-of-stream push comes in time, the stream ends when it should. -/
theorem ends_exactly_of_timely {capacity : ℕ} {r₀ : StreamReassembler}
    (hnew : new capacity = some r₀) {S : List Byte} (hS : S.length < 2 ^ 32) {ops : List Op}
    (hops : ((machine S).restrict (EofTimely S)).Admits r₀ ops) : EndsExactly S r₀ ops := by
  have ha := endAgrees_run hnew hS hops
  obtain ⟨hrep, -⟩ := represents_run hnew hS ((machine S).admits_of_restrict hops)
  rw [EndsExactly]
  rw [ByteStream.inputEnded, ha.ended_iff, ha.received_iff, everWritten, hrep.written_eq]
  refine and_congr_right fun _ => ⟨fun hw => by rw [hw, List.take_length], fun hw => ?_⟩
  have hlen := congrArg List.length hw
  rw [List.length_take, Nat.min_eq_left hrep.bytesWritten_le] at hlen
  exact hlen

theorem ends_exactly_of_timely_split :
    ∃ r₀, new 4 = some r₀ ∧
      EndsExactly [7, 8] r₀ [.push [8] 1 true, .push [] 2 true, .push [7] 0 false] := by
  refine ⟨_, rfl, ends_exactly_of_timely (show new 4 = some _ from rfl) (by decide) ?_⟩
  refine ⟨⟨by decide, ?_⟩, ⟨by decide, ?_⟩, ⟨by decide, ?_⟩, trivial⟩
  · intro _ hdata
    cases hdata
  · exact fun _ _ _ => Or.inr (Or.inr ⟨by decide, by decide⟩)
  · intro heof
    cases heof

/-- A lone end-of-stream push ends the output although the only byte of the stream is missing. -/
theorem ends_early_on_empty_eof :
    ∃ r₀, new 4 = some r₀ ∧ (machine [7]).Admits r₀ [.push [] 1 true] ∧
      ((machine [7]).run r₀ [.push [] 1 true]).output.inputEnded = true ∧
      everWritten [7] r₀ [.push [] 1 true] = [] ∧ ¬ EndsExactly [7] r₀ [.push [] 1 true] := by
  refine ⟨_, rfl, by decide, by decide, by decide, ?_⟩
  intro h
  have hall := (h.mp (by decide)).2
  revert hall
  decide

end StreamReassembler
end Sponge
