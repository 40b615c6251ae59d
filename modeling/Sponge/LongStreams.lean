import Sponge.ReceiverRuns

/-!
# Streams of more than 4 GiB

The counter of written bytes has 32 bits, and the window of the reassembler starts at it. For a
segment that starts behind the last multiple of `2 ^ 32` the index is too small by the same
multiple as the counter, and nothing is lost. One that straddles the multiple gets an index far
behind the window and its new bytes are dropped.
-/
namespace Sponge
open MachineWords

namespace TCPReceiver
open StreamReassembler

/-- A receiver together with what has been read from it. -/
structure Transfer where
  receiver : TCPReceiver
  taken : List Byte

namespace Transfer

/-- The number of bytes assembled so far, in full. -/
def assembled (t : Transfer) : ℕ := t.taken.length + t.receiver.streamOut.bufferSize

def counter (t : Transfer) : ℕ := t.receiver.streamOut.bytesWritten

/-- Byte `k` of the stream has been written to the output or waits in the window. -/
def Has (t : Transfer) (k : ℕ) : Prop := t.receiver.reassembler.HeldFrom t.assembled k

def step (t : Transfer) (op : Op) : Transfer :=
  ⟨t.receiver.step op, t.taken ++ t.receiver.removed op⟩

def Near (t : Transfer) (i : ℕ) : Prop :=
  i ≤ t.assembled + (2 ^ 31 - 1) ∧ t.assembled ≤ i + (2 ^ 31 - 1)

/-- Segments belong to the stream `S` and start near the assembled bytes. -/
def Enabled (isn : WrappingInt32) (S : List Byte) (t : Transfer) : Op → Prop
  | .segment seg => ∃ i, seg.Carries isn S i ∧ t.Near i
  | .read _ => True
  | .pop len => len ≤ t.receiver.streamOut.bufferSize

def machine (isn : WrappingInt32) (S : List Byte) : Machine Transfer Op := ⟨step, Enabled isn S⟩

/-- The payload takes part in the stream: its bytes inside the window become held, no others do,
and every byte is the one of `S` at its place. -/
structure Takes (capacity : ℕ) (S : List Byte) (t : Transfer) (seg : TCPSegment) (i : ℕ) :
    Prop where
  has_iff : ∀ k, (t.step (.segment seg)).Has k ↔ t.Has k ∨
    max i t.assembled ≤ k ∧ k < min (i + seg.payload.length) (capacity + t.taken.length)
  written : (t.step (.segment seg)).taken ++ (t.step (.segment seg)).receiver.streamOut.contents =
    S.take (t.step (.segment seg)).assembled
  waiting : (t.step (.segment seg)).receiver.reassembler.Ahead S (t.step (.segment seg)).assembled

/-- A payload of more than `2 ^ 31` bytes that starts as far ahead as possible is taken for one
that starts `2 ^ 32` before that. -/
def Folds (capacity : ℕ) (t : Transfer) (seg : TCPSegment) (i : ℕ) : Prop :=
  i + 1 = t.assembled + 2 ^ 31 ∧ 2 ^ 31 < t.counter ∧ 2 ^ 31 + 1 < seg.payload.length ∧
    t.assembled < capacity + t.taken.length

/-- The payload does not start before the last multiple of `2 ^ 32`, or has no byte that is due. -/
def Unbroken (capacity : ℕ) (t : Transfer) (seg : TCPSegment) (i : ℕ) : Prop :=
  t.assembled ≤ i + t.counter ∨ i + seg.payload.length ≤ t.assembled ∨
    capacity + t.taken.length ≤ t.assembled

def NeverFolds (isn : WrappingInt32) (S : List Byte) (capacity : ℕ) (t : Transfer) : Op → Prop
  | .segment seg => ∀ i, seg.Carries isn S i → t.Near i → t.receiver.Listens seg →
      ¬ t.Folds capacity seg i
  | .read _ => True
  | .pop _ => True

/-- The receiver follows the stream `S`, however long it has become. -/
structure Follows (isn : WrappingInt32) (S : List Byte) (capacity : ℕ) (t : Transfer) : Prop where
  sized : t.receiver.reassembler.Sized
  head_clear : t.receiver.reassembler.written[0]? ≠ some true
  capacity_eq : t.receiver.reassembler.capacity = capacity
  delivered : t.taken ++ t.receiver.streamOut.contents <+: S
  counter_eq : t.counter = t.assembled % 2 ^ 32
  ahead : t.receiver.reassembler.Ahead S t.assembled
  isn_eq : t.receiver.recievedSYN = true → t.receiver.isn = isn

section Receive
variable {isn : WrappingInt32} {S : List Byte} {capacity : ℕ} {t : Transfer} {seg : TCPSegment}
  {i : ℕ}

theorem Follows.length_delivered (h : Follows isn S capacity t) :
    (t.taken ++ t.receiver.streamOut.contents).length = t.assembled := by
  rw [List.length_append]
  exact congrArg _ h.sized.output_wf.length_contents

theorem Follows.assembled_le (h : Follows isn S capacity t) : t.assembled ≤ S.length := by
  rw [← h.length_delivered]
  exact h.delivered.length_le

theorem Follows.not_has_assembled (h : Follows isn S capacity t) : ¬ t.Has t.assembled :=
  not_heldFrom_self h.head_clear _

theorem Follows.window_end (h : Follows isn S capacity t) :
    capacity + t.taken.length = t.assembled + t.receiver.reassembler.room := by
  have hend := h.sized.end_le
  have hcap := h.capacity_eq
  rw [room, assembled]
  change _ = t.taken.length + t.receiver.reassembler.output.endOfBuffer + _
  omega

/-- `unwrap` near a counter that has turned over: the number relative to the last multiple of
`2 ^ 32`; one turn more, when it lies before that; or one turn less, when it is as far ahead as
possible and the counter has passed the middle. -/
theorem unwrap_turned (isn : WrappingInt32) {N w : ℕ} (hw : w = N % 2 ^ 32)
    (hhi : i ≤ N + (2 ^ 31 - 1)) (hlo : N ≤ i + (2 ^ 31 - 1)) :
    (N ≤ i + w ∧ (i + 1 < N + 2 ^ 31 ∨ w < 2 ^ 31)) ∧
      unwrap (wrap (1 + i) isn) isn w + N = 1 + i + w ∨
    (i + w < N ∨ i + 1 = N + 2 ^ 31 ∧ w = 2 ^ 31) ∧ (unwrap (wrap (1 + i) isn) isn w = 0 ∨
      w + 2 ^ 31 < unwrap (wrap (1 + i) isn) isn w) ∨
    (i + 1 = N + 2 ^ 31 ∧ 2 ^ 31 < w) ∧ unwrap (wrap (1 + i) isn) isn w + 2 ^ 31 = w := by
  have hdiff : (wrap (1 + i) isn).sub (wrap w isn) =
      if 1 + i < N + 2 ^ 31 then (1 + i : ℤ) - N else -2 ^ 31 := by
    rw [wrap_sub_wrap]
    simp only [Int.bmod]
    split <;> split <;> omega
  have hsum : w + (wrap (1 + i) isn).sub (wrap w isn) < 2 ^ 63 := by
    rw [hdiff]
    split <;> omega
  have hunwrap := unwrap_eq (wrap (1 + i) isn) isn (by omega) hsum
  rw [hdiff] at hunwrap
  split at hunwrap
  · next hclose =>
    split at hunwrap
    · exact Or.inr (Or.inl ⟨Or.inl (by omega), Or.inr (by omega)⟩)
    · by_cases hle : N ≤ i + w
      · exact Or.inl ⟨⟨hle, Or.inl (by omega)⟩, by omega⟩
      · exact Or.inr (Or.inl ⟨Or.inl (by omega), Or.inl (by omega)⟩)
  · next hfar =>
    have hfarthest : i + 1 = N + 2 ^ 31 := by omega
    split at hunwrap
    · exact Or.inl ⟨⟨by omega, Or.inr (by omega)⟩, by omega⟩
    · by_cases hmiddle : w = 2 ^ 31
      · exact Or.inr (Or.inl ⟨Or.inr ⟨hfarthest, hmiddle⟩, Or.inl (by omega)⟩)
      · exact Or.inr (Or.inr ⟨⟨hfarthest, by omega⟩, by omega⟩)

/-- Where the payload is pushed, relative to the counter, in the three cases of `unwrap`. -/
theorem Follows.streamIndex_cases (h : Follows isn S capacity t) (hseg : seg.Carries isn S i)
    (hnear : t.Near i) (hlisten : t.receiver.Listens seg) :
    (t.assembled ≤ i + t.counter ∧ (i + 1 < t.assembled + 2 ^ 31 ∨ t.counter < 2 ^ 31)) ∧
      t.receiver.streamIndex seg.header + t.assembled = i + t.counter ∨
    (i + t.counter < t.assembled ∨ i + 1 = t.assembled + 2 ^ 31 ∧ t.counter = 2 ^ 31) ∧
      t.counter + 2 ^ 31 ≤ t.receiver.streamIndex seg.header ∨
    (i + 1 = t.assembled + 2 ^ 31 ∧ 2 ^ 31 < t.counter) ∧
      t.receiver.streamIndex seg.header + 2 ^ 31 + 1 = t.counter := by
  have hcount := h.counter_eq
  obtain ⟨hhi, hlo⟩ := hnear
  rw [streamIndex, origin_of_carries hseg hlisten h.isn_eq]
  change _ ∨ _ ∧ _ ≤ subMod 64 (unwrap seg.header.seqno isn t.counter) _ ∨ _
  cases hseg with
  | syn hsyn hseqno _ =>
    have habs : unwrap seg.header.seqno isn t.counter = 0 := by
      rw [hseqno]
      exact unwrap_wrap isn (by omega) (by omega) (by omega) (by omega)
    left
    change _ ∧ subMod 64 (unwrap seg.header.seqno isn t.counter) _ + _ = _
    rw [habs, if_pos hsyn, subMod_of_le (le_refl 0) (by omega)]
    omega
  | data _ hsyn hseqno _ =>
    have hcases := unwrap_turned isn hcount hhi hlo
    have hlt := unwrap_lt seg.header.seqno isn t.counter
    rw [← hseqno] at hcases
    change _ ∧ subMod 64 (unwrap seg.header.seqno isn t.counter) _ + _ = _ ∨ _ ∨ _ ∧
      subMod 64 (unwrap seg.header.seqno isn t.counter) _ + _ + _ = _
    rw [if_neg (by simp [hsyn])]
    generalize unwrap seg.header.seqno isn t.counter = u at hcases hlt ⊢
    rcases hcases with ⟨hin, hu⟩ | ⟨hout, rfl | hu⟩ | ⟨hback, hu⟩
    · rw [subMod_of_le (by omega) hlt]
      exact Or.inl ⟨hin, by omega⟩
    · -- one before the sequence number of the SYN
      have hbefore : subMod 64 0 1 = 2 ^ 64 - 1 := rfl
      rw [hbefore]
      exact Or.inr (Or.inl ⟨hout, by omega⟩)
    · rw [subMod_of_le (by omega) hlt]
      exact Or.inr (Or.inl ⟨hout, by omega⟩)
    · rw [subMod_of_le (by omega) hlt]
      exact Or.inr (Or.inr ⟨hback, by omega⟩)

section Segment
variable (h : Follows isn S capacity t) (hcap : capacity < 2 ^ 31) (hS : S.length < 2 ^ 62)
  (hseg : seg.Carries isn S i) (hnear : t.Near i) (hlisten : t.receiver.Listens seg)
include h hcap hS hseg hnear hlisten

/-- A byte that is stored is one of the payload, in its place. -/
theorem Follows.of_covers (hfold : ¬ t.Folds capacity seg i) {p : ℕ}
    (hp : t.receiver.reassembler.Covers seg.payload (t.receiver.streamIndex seg.header) p) :
    i ≤ t.assembled + p ∧ t.assembled + p < i + seg.payload.length ∧
      t.counter + p - t.receiver.streamIndex seg.header = t.assembled + p - i := by
  obtain ⟨hlo, hhi, hroom⟩ := hp
  have hend := h.window_end
  have hbound := hseg.isSlice.end_le
  have hmod : addMod 64 (t.receiver.streamIndex seg.header) seg.payload.length ≤
      t.receiver.streamIndex seg.header + seg.payload.length := Nat.mod_le _ _
  have hsize : t.receiver.reassembler.room ≤ capacity := h.capacity_eq ▸ Nat.sub_le _ _
  change _ ≤ t.counter + p at hlo
  change t.counter + p < _ at hhi
  rcases h.streamIndex_cases hseg hnear hlisten with hgood | hfar | hback
  · omega
  · omega
  · exact absurd ⟨hback.1.1, hback.1.2, by omega, by omega⟩ hfold

theorem Follows.covers_iff (hfold : ¬ t.Folds capacity seg i) (hunb : t.Unbroken capacity seg i)
    (p : ℕ) :
    t.receiver.reassembler.Covers seg.payload (t.receiver.streamIndex seg.header) p ↔
      max i t.assembled ≤ t.assembled + p ∧
        t.assembled + p < min (i + seg.payload.length) (capacity + t.taken.length) := by
  have hend := h.window_end
  constructor
  · intro hp
    have hof := h.of_covers hcap hS hseg hnear hlisten hfold hp
    have hroom := hp.2.2
    omega
  · rintro ⟨hlo, hhi⟩
    have hbound := hseg.isSlice.end_le
    have hsize : t.receiver.reassembler.room ≤ capacity := h.capacity_eq ▸ Nat.sub_le _ _
    have hle := h.assembled_le
    have hcount := h.counter_eq
    rcases h.streamIndex_cases hseg hnear hlisten with hgood | hfar | hback
    · refine ⟨?_, ?_, by omega⟩
      · change _ ≤ t.counter + p
        omega
      · change t.counter + p < _
        rw [addMod_of_lt (by omega)]
        omega
    · rcases hunb with hunb | hunb | hunb <;> omega
    · omega

theorem Follows.ahead_created (hfold : ¬ t.Folds capacity seg i) :
    (t.receiver.reassembler.created seg.payload (t.receiver.streamIndex seg.header)
      seg.header.fin).Ahead S t.assembled := by
  refine (h.sized.created _ _ _).ahead h.ahead fun p hp => ?_
  obtain ⟨hlo, hhi, heq⟩ := h.of_covers hcap hS hseg hnear hlisten hfold hp
  have hbound := hseg.isSlice.end_le
  have hbyte := hseg.isSlice.getElem? (k := t.assembled + p - i) (by omega)
  rw [Nat.add_sub_cancel' hlo, ← heq] at hbyte
  exact ⟨by omega, hbyte⟩

omit hS hseg hnear in
/-- The bytes in front of the window move on by what is handed to the output. -/
theorem Follows.assembled_segment :
    (t.step (.segment seg)).assembled = t.assembled +
      (t.receiver.reassembler.created seg.payload (t.receiver.streamIndex seg.header)
        seg.header.fin).assembled ∧
    Shifted (t.receiver.reassembler.created seg.payload (t.receiver.streamIndex seg.header)
      seg.header.fin) (t.step (.segment seg)).receiver.reassembler := by
  have hc := h.sized.created seg.payload (t.receiver.streamIndex seg.header) seg.header.fin
  have hle := hc.sized.assembled_le
  have hcapacity := h.capacity_eq
  rw [hc.output_eq, hc.capacity_eq] at hle
  have hs := hc.sized.shifted (by rw [hc.output_eq]; omega)
  have hrec : (t.step (.segment seg)).receiver.reassembler =
      (t.receiver.reassembler.created seg.payload (t.receiver.streamIndex seg.header)
        seg.header.fin).writeSegment.endOutput := by
    change (t.receiver.segmentReceived seg).reassembler = _
    rw [segmentReceived_eq hlisten]
    rfl
  rw [← hrec] at hs
  refine ⟨?_, hs⟩
  have hend := hs.endOfBuffer_eq
  rw [hc.output_eq] at hend
  rw [assembled, assembled]
  change (t.taken ++ []).length + (t.step (.segment seg)).receiver.reassembler.output.endOfBuffer =
    t.taken.length + t.receiver.reassembler.output.endOfBuffer + _
  rw [List.append_nil, hend, Nat.add_assoc]

theorem Follows.segment (hfold : ¬ t.Folds capacity seg i) :
    Follows isn S capacity (t.step (.segment seg)) := by
  have hc := h.sized.created seg.payload (t.receiver.streamIndex seg.header) seg.header.fin
  have hahead := h.ahead_created hcap hS hseg hnear hlisten hfold
  obtain ⟨hcount, hs⟩ := h.assembled_segment hcap hlisten
  have hcont := hs.contents_eq
  rw [hc.output_eq, hahead.take_assembled hc.sized] at hcont
  refine ⟨hs.sized, hs.head_clear, hs.capacity_eq.trans (hc.capacity_eq.trans h.capacity_eq),
    ?_, ?_, ?_, fun _ => ?_⟩
  · change t.taken ++ [] ++ (t.step (.segment seg)).receiver.reassembler.output.contents <+: S
    rw [List.append_nil, hcont, ← List.append_assoc]
    refine append_isPrefix_of_isSlice h.delivered ?_
    change IsSlice S (t.taken ++ t.receiver.streamOut.contents).length _
    rw [h.length_delivered]
    exact ⟨h.assembled_le, List.take_prefix _ _⟩
  · have hbytes := hs.bytesWritten_eq
    have hold : t.receiver.reassembler.output.bytesWritten = t.assembled % 2 ^ 32 := h.counter_eq
    rw [hc.output_eq, hold, addMod, Nat.mod_add_mod, ← hcount] at hbytes
    exact hbytes
  · rw [hcount]
    exact hs.ahead hc.sized hahead
  · change (t.receiver.segmentReceived seg).isn = isn
    rw [segmentReceived_eq hlisten]
    exact origin_of_carries hseg hlisten h.isn_eq

omit hS hseg hnear in
theorem Follows.has_segment_iff (k : ℕ) :
    (t.step (.segment seg)).Has k ↔ t.Has k ∨ t.assembled ≤ k ∧
      t.receiver.reassembler.Covers seg.payload (t.receiver.streamIndex seg.header)
        (k - t.assembled) := by
  have hc := h.sized.created seg.payload (t.receiver.streamIndex seg.header) seg.header.fin
  obtain ⟨hcount, hs⟩ := h.assembled_segment hcap hlisten
  rw [Has, hcount, hs.heldFrom_iff hc.sized, hc.heldFrom_iff]
  rfl

omit hS in
/-- Of a payload that straddles the last multiple of `2 ^ 32` the next byte is dropped. -/
theorem Follows.not_has_of_broken (hbroken : ¬ t.Unbroken capacity seg i) :
    ¬ (t.step (.segment seg)).Has t.assembled := by
  rw [h.has_segment_iff hcap hlisten, or_iff_right h.not_has_assembled]
  rintro ⟨-, hstart, -, -⟩
  have hindex := h.streamIndex_cases hseg hnear hlisten
  rw [Unbroken, not_or, not_or] at hbroken
  change _ ≤ t.counter + (t.assembled - t.assembled) at hstart
  omega

/-- One segment takes part in the stream exactly if it is unbroken and does not fold back. -/
theorem Follows.takes_iff :
    t.Takes capacity S seg i ↔ t.Unbroken capacity seg i ∧ ¬ t.Folds capacity seg i := by
  have hhas := h.has_segment_iff hcap hlisten
  have hfree := h.not_has_assembled
  have hend := h.window_end
  constructor
  · intro htakes
    -- what happens to the next byte of the stream decides
    have hnext := htakes.has_iff t.assembled
    rw [or_iff_right hfree] at hnext
    constructor
    · by_contra hbroken
      refine h.not_has_of_broken hcap hseg hnear hlisten hbroken (hnext.mpr ?_)
      rw [Unbroken, not_or, not_or] at hbroken
      omega
    · rintro ⟨hahead, hmiddle, hlong, hopen⟩
      rw [hhas, or_iff_right hfree, Nat.sub_self] at hnext
      have hindex := h.streamIndex_cases hseg hnear hlisten
      have hbound := hseg.isSlice.end_le
      have hcount := h.counter_eq
      have hback : t.receiver.streamIndex seg.header + 2 ^ 31 + 1 = t.counter := by omega
      have hcover : t.receiver.reassembler.Covers seg.payload
          (t.receiver.streamIndex seg.header) 0 := by
        refine ⟨?_, ?_, by omega⟩
        · change _ ≤ t.counter + 0
          omega
        · change t.counter + 0 < _
          rw [addMod_of_lt (by omega)]
          omega
      have hfar := (hnext.mp ⟨le_refl _, hcover⟩).1
      omega
  · rintro ⟨hunb, hfold⟩
    have hfollows := h.segment hcap hS hseg hnear hlisten hfold
    have hcovers := h.covers_iff hcap hS hseg hnear hlisten hfold hunb
    refine ⟨fun k => ?_, ?_, hfollows.ahead⟩
    · rw [hhas, hcovers]
      refine or_congr Iff.rfl ?_
      by_cases hk : t.assembled ≤ k
      · rw [Nat.add_sub_cancel' hk]
        exact and_iff_right hk
      · omega
    · rw [← hfollows.length_delivered]
      exact List.prefix_iff_eq_take.mp hfollows.delivered

/-- The next bytes of the stream, when nothing waits and there is room, are all handed over. -/
theorem Follows.in_order (hi : i = t.assembled) (hclear : ∀ k, t.Has k ↔ k < t.assembled)
    (hroom : t.assembled + seg.payload.length ≤ capacity + t.taken.length) :
    (t.step (.segment seg)).assembled = t.assembled + seg.payload.length ∧
      ∀ k, (t.step (.segment seg)).Has k ↔ k < t.assembled + seg.payload.length := by
  have hfold : ¬ t.Folds capacity seg i := by
    rw [Folds]
    omega
  have htakes := (h.takes_iff hcap hS hseg hnear hlisten).mpr
    ⟨Or.inl (hi ▸ Nat.le_add_right _ _), hfold⟩
  have hall : ∀ k, (t.step (.segment seg)).Has k ↔ k < t.assembled + seg.payload.length := by
    intro k
    rw [htakes.has_iff, hclear]
    omega
  have hnext := (h.segment hcap hS hseg hnear hlisten hfold).not_has_assembled
  refine ⟨le_antisymm ?_ ?_, hall⟩
  · by_contra hlt
    have hbefore := (hall (t.assembled + seg.payload.length)).mp (Or.inl (by omega))
    omega
  · rw [hall] at hnext
    omega

end Segment

theorem assembled_pop (hwf : t.receiver.streamOut.Wf) {len : ℕ}
    (hlen : len ≤ t.receiver.streamOut.bufferSize) :
    (t.step (.pop len)).assembled = t.assembled := by
  have hend : (t.step (.pop len)).receiver.streamOut.bufferSize =
      t.receiver.streamOut.bufferSize - len := hwf.endOfBuffer_popOutput hlen
  have htake : (t.receiver.streamOut.peekOutput len).length = len := by
    have hbuf := hwf.length_buffer
    have hle := hwf.end_le
    rw [ByteStream.bufferSize] at hlen
    rw [ByteStream.peekOutput, List.length_take]
    omega
  rw [assembled, hend, assembled]
  change (t.taken ++ t.receiver.streamOut.peekOutput len).length + _ = _
  rw [List.length_append, htake]
  omega

theorem Follows.pop (h : Follows isn S capacity t) {len : ℕ}
    (hlen : len ≤ t.receiver.streamOut.bufferSize) :
    Follows isn S capacity (t.step (.pop len)) := by
  have hsame := assembled_pop h.sized.output_wf hlen
  refine ⟨h.sized.popOutput hlen, h.head_clear, h.capacity_eq, ?_, ?_, ?_, h.isn_eq⟩
  · change t.taken ++ t.receiver.streamOut.peekOutput len ++
      (t.receiver.reassembler.output.popOutput len).contents <+: S
    rw [peekOutput_eq hlen, h.sized.output_wf.contents_popOutput hlen, List.append_assoc]
    change t.taken ++ (t.receiver.reassembler.output.contents.take len ++ _) <+: S
    rw [List.take_append_drop]
    exact h.delivered
  · rw [hsame]
    exact h.counter_eq
  · rw [hsame]
    exact h.ahead

/-- A read takes what a pop of the same length would. -/
theorem step_read (t : Transfer) (len : ℕ) :
    t.step (.read len) = t.step (.pop (t.receiver.streamOut.readLen len)) := rfl

theorem Follows.step (h : Follows isn S capacity t) (hcap : capacity < 2 ^ 31)
    (hS : S.length < 2 ^ 62) {op : Op} (hop : Enabled isn S t op)
    (hfold : NeverFolds isn S capacity t op) : Follows isn S capacity (t.step op) := by
  cases op with
  | segment seg =>
    obtain ⟨i, hseg, hnear⟩ := hop
    by_cases hlisten : t.receiver.Listens seg
    · exact h.segment hcap hS hseg hnear hlisten (hfold i hseg hnear hlisten)
    · have hsame : t.step (.segment seg) = t := by
        rw [Transfer.step, removed, List.append_nil]
        change Transfer.mk (t.receiver.segmentReceived seg) t.taken = t
        rw [segmentReceived_of_not_listens hlisten]
      rwa [hsame]
  | read len =>
    rw [step_read]
    exact h.pop (t.receiver.streamOut.readLen_le len)
  | pop len => exact h.pop hop

end Receive

section Run
variable {isn : WrappingInt32} {S : List Byte} {capacity : ℕ} {v₀ : TCPReceiver}

theorem follows_new (hnew : new capacity = some v₀) (isn : WrappingInt32) (S : List Byte) :
    Follows isn S capacity ⟨v₀, []⟩ ∧ ∀ p : ℕ, v₀.reassembler.written[p]? ≠ some true := by
  obtain ⟨r, hr, rfl⟩ := new_eq_some hnew
  obtain ⟨hs, hclear⟩ := sized_new hr
  obtain ⟨output, hout, rfl⟩ := StreamReassembler.new_eq_some hr
  obtain ⟨-, rfl⟩ := ByteStream.new_eq_some hout
  refine ⟨⟨hs, hclear 0, rfl, ?_, rfl, fun p hp => absurd hp (hclear p), by simp⟩, hclear⟩
  simp [streamOut, StreamReassembler.streamOut, ByteStream.contents]

theorem follows_run (hnew : new capacity = some v₀) (hcap : capacity < 2 ^ 31)
    (hS : S.length < 2 ^ 62) {ops : List Op}
    (hops : ((machine isn S).restrict (NeverFolds isn S capacity)).Admits ⟨v₀, []⟩ ops) :
    Follows isn S capacity ((machine isn S).run ⟨v₀, []⟩ ops) :=
  ((machine isn S).restrict (NeverFolds isn S capacity)).invariant (follows_new hnew isn S).1
    (fun _ _ h hop => h.step hcap hS hop.1 hop.2) hops

/-- The SYN, and then `n` times the same bytes in order, each time read at once. -/
def rounds (isn : WrappingInt32) (data : List Byte) : ℕ → List Op
  | 0 => [.segment { header := { seqno := isn, syn := true } }, .read 0]
  | n + 1 => rounds isn data n ++
    [.segment { header := { seqno := wrap (1 + n * data.length) isn }, payload := data },
      .read data.length]

/-- The first `n` bytes have been read, and nothing waits behind them. -/
structure Drained (isn : WrappingInt32) (S : List Byte) (capacity n : ℕ) (t : Transfer) : Prop where
  follows : Follows isn S capacity t
  length_taken : t.taken.length = n
  assembled_eq : t.assembled = n
  has_iff : ∀ k, t.Has k ↔ k < n

theorem drained_new (hnew : new capacity = some v₀) (isn : WrappingInt32) (S : List Byte) :
    Drained isn S capacity 0 ⟨v₀, []⟩ := by
  obtain ⟨h, hclear⟩ := follows_new hnew isn S
  obtain ⟨r, hr, rfl⟩ := new_eq_some hnew
  obtain ⟨output, hout, rfl⟩ := StreamReassembler.new_eq_some hr
  obtain ⟨-, rfl⟩ := ByteStream.new_eq_some hout
  refine ⟨h, rfl, rfl, fun k => ⟨?_, fun hk => absurd hk (Nat.not_lt_zero k)⟩⟩
  rintro (hk | ⟨-, hk⟩)
  · exact hk
  · exact absurd hk (hclear _)

/-- The next bytes arrive and are read. -/
theorem Drained.round {n : ℕ} {t : Transfer} (h : Drained isn S capacity n t) (seg : TCPSegment)
    (hcap : capacity < 2 ^ 31) (hS : S.length < 2 ^ 62) (hseg : seg.Carries isn S n)
    (hlisten : t.receiver.Listens seg) (hlen : seg.payload.length ≤ capacity) :
    ((machine isn S).restrict (NeverFolds isn S capacity)).Admits t
      [.segment seg, .read seg.payload.length] ∧
    Drained isn S capacity (n + seg.payload.length)
      ((machine isn S).run t [.segment seg, .read seg.payload.length]) ∧
    ((machine isn S).run t
      [.segment seg, .read seg.payload.length]).receiver.recievedSYN = true := by
  have hn := h.assembled_eq
  have htaken := h.length_taken
  have hnear : t.Near n := by
    rw [Near]
    omega
  have hfold : ∀ i, ¬ t.Folds capacity seg i := fun i => by
    rw [Folds]
    omega
  have hf := h.follows.segment hcap hS hseg hnear hlisten (hfold n)
  obtain ⟨hcount, hhas⟩ := h.follows.in_order hcap hS hseg hnear hlisten hn.symm
    (fun k => by rw [hn]; exact h.has_iff k) (by omega)
  have hbuffered : (t.step (.segment seg)).receiver.streamOut.bufferSize = seg.payload.length := by
    have htotal : (t.taken ++ []).length +
        (t.step (.segment seg)).receiver.streamOut.bufferSize = _ := hcount
    rw [List.append_nil] at htotal
    omega
  have hread : (t.step (.segment seg)).step (.read seg.payload.length) =
      (t.step (.segment seg)).step (.pop seg.payload.length) := by
    rw [step_read, ByteStream.readLen_eq]
    change Transfer.step _ (.pop (min _ (t.step (.segment seg)).receiver.streamOut.bufferSize)) = _
    rw [hbuffered, Nat.min_self]
  have hsame := assembled_pop hf.sized.output_wf hbuffered.ge
  have hrun : (machine isn S).run t [.segment seg, .read seg.payload.length] =
      (t.step (.segment seg)).step (.pop seg.payload.length) := hread
  rw [hrun]
  refine ⟨⟨⟨⟨n, hseg, hnear⟩, fun i _ _ _ => hfold i⟩, ⟨trivial, trivial⟩, trivial⟩,
    ⟨hf.pop hbuffered.ge, ?_, by omega, fun k => ?_⟩, ?_⟩
  · have hempty : ((t.step (.segment seg)).step
        (.pop seg.payload.length)).receiver.streamOut.bufferSize = _ :=
      hf.sized.output_wf.endOfBuffer_popOutput hbuffered.ge
    have hzero : (t.step (.segment seg)).receiver.reassembler.output.endOfBuffer =
      seg.payload.length := hbuffered
    rw [assembled, hempty, hzero] at hsame
    omega
  · rw [← hn, ← hhas, Has, hsame]
    rfl
  · change (t.receiver.segmentReceived seg).recievedSYN = true
    rw [segmentReceived_eq hlisten]

theorem drained_rounds (isn : WrappingInt32) {data : List Byte} {n : ℕ} (hcap : capacity < 2 ^ 31)
    (hS : S.length < 2 ^ 62) (hnew : new capacity = some v₀) (hlen : data.length ≤ capacity)
    (hdata : ∀ m < n, IsSlice S (m * data.length) data) :
    ((machine isn S).restrict (NeverFolds isn S capacity)).Admits ⟨v₀, []⟩ (rounds isn data n) ∧
    Drained isn S capacity (n * data.length) ((machine isn S).run ⟨v₀, []⟩ (rounds isn data n)) ∧
    ((machine isn S).run ⟨v₀, []⟩ (rounds isn data n)).receiver.recievedSYN = true := by
  induction n with
  | zero =>
    have hstart := (drained_new hnew isn S).round { header := { seqno := isn, syn := true } }
      hcap hS (.syn rfl (wrap_zero isn).symm (.nil (Nat.zero_le _))) (Or.inr rfl) (Nat.zero_le _)
    rw [Nat.zero_mul]
    exact hstart
  | succ n ih =>
    obtain ⟨hadmits, hdrained, hsyn⟩ := ih fun m hm => hdata m (by omega)
    obtain ⟨hnext, hdrained', hsyn'⟩ := hdrained.round
      { header := { seqno := wrap (1 + n * data.length) isn }, payload := data }
      hcap hS (.data _ rfl rfl (hdata n (by omega))) (Or.inl hsyn) hlen
    rw [rounds, Machine.admits_append, Machine.restrict_run, Machine.run_append, Nat.succ_mul]
    exact ⟨⟨hadmits, hnext⟩, hdrained', hsyn'⟩

/-- Four times `2 ^ 30` bytes. -/
def fourGiB : List Op := rounds ⟨0⟩ (List.replicate (2 ^ 30) space) 4

/-- One byte more. -/
def blanks : List Byte := List.replicate (2 ^ 32 + 1) space

theorem blanks_length : blanks.length = 2 ^ 32 + 1 := List.length_replicate

/-- After exactly `2 ^ 32` bytes everything has been read, and the counter is back at zero. -/
theorem drained_fourGiB :
    ∃ v₀, new (2 ^ 30) = some v₀ ∧
      ((machine ⟨0⟩ blanks).restrict (NeverFolds ⟨0⟩ blanks (2 ^ 30))).Admits ⟨v₀, []⟩ fourGiB ∧
      Drained ⟨0⟩ blanks (2 ^ 30) (2 ^ 32) ((machine ⟨0⟩ blanks).run ⟨v₀, []⟩ fourGiB) ∧
      ((machine ⟨0⟩ blanks).run ⟨v₀, []⟩ fourGiB).receiver.recievedSYN = true := by
  obtain ⟨v₀, hnew⟩ := exists_new (show 2 ^ 30 ≤ stringMaxSize by decide)
  have hdata : ∀ m < 4, IsSlice blanks
      (m * (List.replicate (2 ^ 30) space).length) (List.replicate (2 ^ 30) space) := by
    intro m hm
    rw [List.length_replicate]
    exact isSlice_replicate space _ (by omega)
  have hrounds := drained_rounds ⟨0⟩ (by decide) (by rw [blanks_length]; decide) hnew
    (by rw [List.length_replicate]) hdata
  rw [List.length_replicate] at hrounds
  exact ⟨v₀, hnew, hrounds⟩

/-- However long the stream has become, the next segment takes part in it if and only if it is
unbroken and does not fold back. -/
theorem takes_iff_unbroken (hcap : capacity < 2 ^ 31) (hS : S.length < 2 ^ 62)
    (hnew : new capacity = some v₀) {past : List Op}
    (hpast : ((machine isn S).restrict (NeverFolds isn S capacity)).Admits ⟨v₀, []⟩ past)
    {seg : TCPSegment} {i : ℕ} (hseg : seg.Carries isn S i)
    (hnear : ((machine isn S).run ⟨v₀, []⟩ past).Near i)
    (hlisten : ((machine isn S).run ⟨v₀, []⟩ past).receiver.Listens seg) :
    ((machine isn S).run ⟨v₀, []⟩ past).Takes capacity S seg i ↔
      ((machine isn S).run ⟨v₀, []⟩ past).Unbroken capacity seg i ∧
        ¬ ((machine isn S).run ⟨v₀, []⟩ past).Folds capacity seg i :=
  (follows_run hnew hcap hS hpast).takes_iff hcap hS hseg hnear hlisten

/-- The next byte. -/
def due : TCPSegment := { header := { seqno := wrap (1 + 2 ^ 32) ⟨0⟩ }, payload := [space] }

theorem takes_past_wrap :
    ∃ v₀, new (2 ^ 30) = some v₀ ∧
      ((machine ⟨0⟩ blanks).run ⟨v₀, []⟩ fourGiB).assembled = 2 ^ 32 ∧
      ((machine ⟨0⟩ blanks).run ⟨v₀, []⟩ fourGiB).counter = 0 ∧
      ((machine ⟨0⟩ blanks).run ⟨v₀, []⟩ fourGiB).Takes (2 ^ 30) blanks due (2 ^ 32) := by
  obtain ⟨v₀, hnew, hadmits, hdrained, hsyn⟩ := drained_fourGiB
  have hn := hdrained.assembled_eq
  have hcount := hdrained.follows.counter_eq
  have hdue : due.Carries ⟨0⟩ blanks (2 ^ 32) :=
    .data _ rfl rfl (isSlice_replicate space 1 (by decide))
  refine ⟨v₀, hnew, hn, by omega, ?_⟩
  refine (takes_iff_unbroken (by decide) (by rw [blanks_length]; decide) hnew hadmits hdue ?_
    (Or.inl hsyn)).mpr ⟨?_, ?_⟩
  · rw [Near]
    omega
  · exact Or.inl (by omega)
  · rw [Folds]
    omega

/-- The last byte that has been read once more, and the next one. -/
def straddling : TCPSegment :=
  { header := { seqno := wrap (1 + (2 ^ 32 - 1)) ⟨0⟩ }, payload := [space, space] }

/-- After exactly `2 ^ 32` bytes the next one is lost when it comes with the last one. -/
theorem byte_lost_past_wrap :
    ∃ v₀, new (2 ^ 30) = some v₀ ∧
      (machine ⟨0⟩ (List.replicate (2 ^ 32 + 1) space)).Admits ⟨v₀, []⟩
        (fourGiB ++ [.segment straddling]) ∧
      ((machine ⟨0⟩ (List.replicate (2 ^ 32 + 1) space)).run ⟨v₀, []⟩ fourGiB).assembled = 2 ^ 32 ∧
      ((machine ⟨0⟩ (List.replicate (2 ^ 32 + 1) space)).run ⟨v₀, []⟩ fourGiB).taken.length =
        2 ^ 32 ∧
      ¬ ((machine ⟨0⟩ (List.replicate (2 ^ 32 + 1) space)).run ⟨v₀, []⟩
        (fourGiB ++ [.segment straddling])).Has (2 ^ 32) := by
  obtain ⟨v₀, hnew, hadmits, hdrained, hsyn⟩ := drained_fourGiB
  have hn := hdrained.assembled_eq
  have htaken := hdrained.length_taken
  have hcount := hdrained.follows.counter_eq
  have hlast : straddling.Carries ⟨0⟩ blanks (2 ^ 32 - 1) :=
    .data _ rfl rfl (isSlice_replicate space 2 (by decide))
  have hnear : ((machine ⟨0⟩ blanks).run ⟨v₀, []⟩ fourGiB).Near (2 ^ 32 - 1) := by
    rw [Near]
    omega
  have hlost := hdrained.follows.not_has_of_broken (by decide) hlast hnear (Or.inl hsyn) (by
    rw [Unbroken]
    change ¬ (_ ∨ 2 ^ 32 - 1 + 2 ≤ _ ∨ _)
    omega)
  rw [hn] at hlost
  refine ⟨v₀, hnew, (Machine.admits_snoc _ _ _ _).mpr
    ⟨Machine.admits_of_restrict _ hadmits, _, hlast, hnear⟩, hn, htaken, ?_⟩
  rw [Machine.run_snoc]
  exact hlost

end Run
end Transfer
end TCPReceiver
end Sponge
