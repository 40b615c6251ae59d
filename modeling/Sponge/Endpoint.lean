import Sponge.ReceiverRuns
import Sponge.SenderHistory
import Sponge.TCPConnection

/-!
# What an endpoint emits

`Drives Q W tiles c`: the sender of `c` has the history `tiles` on the bytes `W`,
each tile is emitted or waits to be, everything the endpoint emitted is a copy of
one of these tiles or a blank segment, and every acknowledgment on it satisfies
`Q`. An endpoint that is inactive without an error has its FIN acknowledged.
-/
namespace Sponge
open MachineWords TCPSender

namespace TCPSegment

/-- The same segment up to acknowledgment, window and reset. -/
structure Copies (seg orig : TCPSegment) : Prop where
  payload_eq : seg.payload = orig.payload
  seqno_eq : seg.header.seqno = orig.header.seqno
  syn_eq : seg.header.syn = orig.header.syn
  fin_eq : seg.header.fin = orig.header.fin

structure Blank (seg : TCPSegment) : Prop where
  payload_eq : seg.payload = []
  syn_eq : seg.header.syn = false
  fin_eq : seg.header.fin = false

theorem Copies.carries {seg orig : TCPSegment} {isn : WrappingInt32} {S : List Byte} {i : ℕ}
    (h : seg.Copies orig) (horig : orig.Carries isn S i) : seg.Carries isn S i := by
  cases horig with
  | syn hsyn hseqno hdata =>
    exact .syn (h.syn_eq.trans hsyn) (h.seqno_eq.trans hseqno) (h.payload_eq ▸ hdata)
  | data i hsyn hseqno hdata =>
    exact .data i (h.syn_eq.trans hsyn) (h.seqno_eq.trans hseqno) (h.payload_eq ▸ hdata)

end TCPSegment

namespace TCPSender

theorem fillWindow_fin {s : TCPSender} (hfin : s.fin = true) : s.fillWindow.fin = true := by
  cases hsyn : s.syn with
  | false =>
    rw [fillWindow_of_not_syn hsyn, sendSYN, sendSegment_eq]
    exact hfin
  | true =>
    rw [fillWindow_eq hsyn, fillLoop_of_fin _ _ hfin]
    exact hfin

/-- With room in the window and something to send, something is sent. -/
theorem Sound.fillWindow_sends {s : TCPSender} (h : Sound s) (hfin : s.fin = false)
    (hpending : s.hasPending = true) (hroom : s.remainingWindow ≠ 0) :
    s.nextSeqno < s.fillWindow.nextSeqno := by
  cases hsyn : s.syn with
  | false =>
    rw [fillWindow_of_not_syn hsyn, sendSYN, sendSegment_eq]
    exact Nat.lt_add_of_pos_right Nat.one_pos
  | true =>
    obtain ⟨t, hstep, tiles, hrest⟩ := fillWindow_of_looping hsyn ⟨hroom, hfin, hpending⟩
    have hfirst := hstep.sent.next_eq
    have hpos := (hstep.wf h.stream_wf).2
    have hle := (hrest.tiles (h.send hstep)).le
    omega

/-- After a call that leaves nothing in flight although the input has ended, the FIN is sent and
everything is acknowledged. -/
theorem Sound.closed_of_idle {s : TCPSender} (h : Sound s) (hended : s.stream.isInputEnded = true)
    (hidle : s.fillWindow.bytesInFlight = 0) :
    s.fillWindow.fin = true ∧ s.fillWindow.checkpoint = s.fillWindow.nextSeqno := by
  obtain ⟨tiles, hfills⟩ := s.fillWindow_fills
  obtain ⟨start, hout⟩ := h.fillWindow.outstanding
  obtain ⟨start₀, hout₀⟩ := h.outstanding
  have hnone : s.fillWindow.segmentsInFlight = [] := by
    have hsum := hout.bytes_eq.symm.trans hidle
    cases hq : s.fillWindow.segmentsInFlight with
    | nil => rfl
    | cons t ts =>
      rw [hq, List.map_cons, List.sum_cons] at hsum
      have hpos : 0 < t.length := hout.tiles.len_pos (hq ▸ List.mem_cons_self)
      omega
  have hcp := hout.eq_nil_iff.mp hnone
  refine ⟨?_, hcp⟩
  -- nothing was sent, and with an open window only a FIN sent before explains that
  have hle := (hfills.tiles h).le
  have hbound := hout₀.checkpoint_le
  rw [hfills.frame.checkpoint_eq] at hcp
  by_contra hopen
  have hfin : s.fin = false := by
    by_contra hset
    exact hopen (fillWindow_fin (Bool.not_eq_false _ ▸ hset))
  have hroom : s.remainingWindow ≠ 0 := by
    have hrwnd := h.rwnd_lt
    have hflight : s.nextSeqno - s.checkpoint = 0 := by omega
    rw [remainingWindow, hflight, subMod_zero_right]
    · split <;> omega
    · split <;> omega
  have hpending : s.hasPending = true := by
    cases hempty : s.stream.bufferEmpty with
    | true => simp [hasPending, ByteStream.eof, hended, hempty]
    | false => simp [hasPending, hempty]
  have hsends := h.fillWindow_sends hfin hpending hroom
  omega

theorem Sound.segmentsOut_congr {s : TCPSender} (h : Sound s) (out : List TCPSegment) :
    Sound { s with segmentsOut := out } :=
  h.frame h.stream_wf rfl rfl rfl rfl rfl h.rwnd_lt

theorem Sound.setError {s : TCPSender} (h : Sound s) :
    Sound { s with stream := s.stream.setError } :=
  h.frame h.stream_wf.setError rfl rfl rfl rfl rfl h.rwnd_lt

end TCPSender

namespace TCPConnection
open TCPSegment

/-- A segment waiting in the queue of a sender: a tile, or an empty segment without flags. -/
def Waits (tiles : List OrderedSegment) (seg : TCPSegment) : Prop :=
  (∃ t ∈ tiles, seg = t.seg) ∨ ∃ seqno, seg = { header := { seqno } }

/-- A segment on the network: a copy of a tile, or blank. -/
def Travels (tiles : List OrderedSegment) (seg : TCPSegment) : Prop :=
  (∃ t ∈ tiles, seg.Copies t.seg) ∨ seg.Blank

/-- A segment is in the sender's queue, or a copy of it has left the endpoint. -/
def Pushed (c : TCPConnection) (seg : TCPSegment) : Prop :=
  seg ∈ c.sender.segmentsOut ∨ ∃ out ∈ c.segmentsOut, out.Copies seg

structure Drives (Q : WrappingInt32 → Prop) (W : List Byte) (tiles : List OrderedSegment)
    (c : TCPConnection) : Prop where
  sound : Sound c.sender
  history : History W tiles c.sender
  pushed : ∀ t ∈ tiles, c.Pushed t.seg
  waiting : ∀ seg ∈ c.sender.segmentsOut, Waits tiles seg
  emitted : ∀ seg ∈ c.segmentsOut, Travels tiles seg
  acks : ∀ seg ∈ c.segmentsOut, seg.header.ack = true → Q seg.header.ackno
  ready : ∀ ackno, c.receiver.ackno = some ackno → Q ackno
  closed : c.isActive = false → c.sender.stream.error = true ∨
    c.sender.fin = true ∧ c.sender.checkpoint = c.sender.nextSeqno

section Dress
variable {v : TCPReceiver} {seg : TCPSegment} {tiles : List OrderedSegment}

theorem dress_copies (v : TCPReceiver) (rst : Bool) (seg : TCPSegment) :
    (dress v rst seg).Copies seg := by
  rw [dress]
  cases v.ackno with
  | none => cases rst <;> exact ⟨rfl, rfl, rfl, rfl⟩
  | some ackno => cases rst <;> exact ⟨rfl, rfl, rfl, rfl⟩

theorem dress_ack {rst : Bool} (hplain : seg.header.ack = false)
    (hack : (dress v rst seg).header.ack = true) :
    v.ackno = some (dress v rst seg).header.ackno := by
  rw [dress] at hack ⊢
  cases hv : v.ackno with
  | none =>
    rw [hv] at hack
    cases rst <;> exact absurd (hplain.symm.trans hack) (by decide)
  | some ackno => cases rst <;> rfl

theorem mem_dressAll {setRst : Bool} {segs : List TCPSegment}
    (h : seg ∈ dressAll v setRst segs) : ∃ orig ∈ segs, ∃ rst, seg = dress v rst orig := by
  induction segs with
  | nil => cases h
  | cons orig rest ih =>
    rcases List.mem_cons.mp h with rfl | h
    · exact ⟨orig, List.mem_cons_self, _, rfl⟩
    · obtain ⟨orig', hmem, hrst⟩ := ih h
      exact ⟨orig', List.mem_cons_of_mem _ hmem, hrst⟩

theorem exists_copy_mem_dressAll (v : TCPReceiver) (setRst : Bool) {segs : List TCPSegment}
    {seg : TCPSegment} (h : seg ∈ segs) : ∃ out ∈ dressAll v setRst segs, out.Copies seg := by
  induction segs with
  | nil => cases h
  | cons first rest ih =>
    rcases List.mem_cons.mp h with rfl | h
    · exact ⟨_, List.mem_cons_self, dress_copies v _ _⟩
    · obtain ⟨out, hout, hcopy⟩ := ih h
      exact ⟨out, List.mem_cons_of_mem _ hout, hcopy⟩

theorem Pushed.mono {c d : TCPConnection} (h : c.Pushed seg)
    (hqueue : c.sender.segmentsOut ⊆ d.sender.segmentsOut)
    (hout : c.segmentsOut = d.segmentsOut) : d.Pushed seg := by
  rcases h with hwaits | hcopy
  · exact Or.inl (hqueue hwaits)
  · rw [hout] at hcopy
    exact Or.inr hcopy

theorem Waits.mono (h : Waits tiles seg) (more : List OrderedSegment) :
    Waits (tiles ++ more) seg := by
  rcases h with ⟨t, ht, rfl⟩ | h
  · exact Or.inl ⟨t, List.mem_append_left _ ht, rfl⟩
  · exact Or.inr h

theorem Travels.mono (h : Travels tiles seg) (more : List OrderedSegment) :
    Travels (tiles ++ more) seg := by
  rcases h with ⟨t, ht, hcopy⟩ | h
  · exact Or.inl ⟨t, List.mem_append_left _ ht, hcopy⟩
  · exact Or.inr h

theorem Waits.travels (h : Waits tiles seg) (rst : Bool) : Travels tiles (dress v rst seg) := by
  have hcopy := dress_copies v rst seg
  rcases h with ⟨t, ht, rfl⟩ | ⟨seqno, rfl⟩
  · exact Or.inl ⟨t, ht, hcopy⟩
  · exact Or.inr ⟨hcopy.payload_eq, hcopy.syn_eq, hcopy.fin_eq⟩

theorem Waits.plain {W : List Byte} {s : TCPSender} (h : Waits tiles seg)
    (hist : History W tiles s) : seg.header.ack = false := by
  rcases h with ⟨t, ht, rfl⟩ | ⟨seqno, rfl⟩
  · rw [hist.header_eq t ht]
  · rfl

end Dress

/-- A connection that shuts down cleanly has ended its input and has nothing in flight. -/
theorem cleanShutdown_isActive {c : TCPConnection} (h : c.cleanShutdown.isActive = false) :
    c.isActive = false ∨
      c.sender.stream.isInputEnded = true ∧ c.sender.bytesInFlight = 0 := by
  by_cases hactive : c.isActive = false
  · exact Or.inl hactive
  · right
    simp only [cleanShutdown] at h
    generalize hd : (if (c.receiver.streamOut.inputEnded && !c.sender.stream.eof) = true then
      ({ c with lingerAfterStreamsFinish := false } : TCPConnection) else c) = d at h
    have hsender : d.sender = c.sender := by
      rw [← hd]
      split <;> rfl
    have hstill : d.isActive = c.isActive := by
      rw [← hd]
      split <;> rfl
    split at h
    · next hcond =>
      simp only [Bool.and_eq_true, beq_iff_eq, hsender] at hcond
      exact ⟨hcond.1.1.2, hcond.1.2⟩
    · rw [hstill] at h
      exact absurd h hactive

/-- `d` comes from `c` by sending the tiles `more`. -/
structure Continues (Q : WrappingInt32 → Prop) (W : List Byte) (tiles more : List OrderedSegment)
    (c d : TCPConnection) : Prop where
  drives : Drives Q W (tiles ++ more) d
  isn_eq : d.sender.isn = c.sender.isn
  finished : c.sender.fin = true → more = [] ∧ d.sender.fin = true

section Moves
variable {Q : WrappingInt32 → Prop} {W : List Byte} {tiles more : List OrderedSegment}
  {c d e : TCPConnection}

theorem Continues.trans {more' : List OrderedSegment} (h : Continues Q W tiles more c d)
    (h' : Continues Q W (tiles ++ more) more' d e) : Continues Q W tiles (more ++ more') c e := by
  refine ⟨?_, h'.isn_eq.trans h.isn_eq, ?_⟩
  · rw [← List.append_assoc]
    exact h'.drives
  · intro hfin
    obtain ⟨rfl, hd⟩ := h.finished hfin
    obtain ⟨rfl, he⟩ := h'.finished hd
    exact ⟨rfl, he⟩

theorem Drives.refl (h : Drives Q W tiles d) (hisn : d.sender.isn = c.sender.isn)
    (hfin : d.sender.fin = c.sender.fin) : Continues Q W tiles [] c d := by
  refine ⟨?_, hisn, ?_⟩
  · rw [List.append_nil]
    exact h
  · intro hset
    exact ⟨rfl, hfin.trans hset⟩

/-- A sender that went on from a driven one has nothing but tiles and empty segments queued. -/
theorem Drives.waits_of_extends (h : Drives Q W tiles c) {s : TCPSender}
    (hext : Extends c.sender more s) : ∀ seg ∈ s.segmentsOut, Waits (tiles ++ more) seg := by
  intro seg hseg
  rw [hext.segmentsOut_eq] at hseg
  rcases List.mem_append.mp hseg with hold | hnew
  · exact (h.waiting seg hold).mono more
  · obtain ⟨t, ht, rfl⟩ := List.mem_map.mp hnew
    exact Or.inl ⟨t, List.mem_append_right _ ht, rfl⟩

/-- A sender that has gone on by the tiles `more` has them in its queue. -/
theorem Drives.pushed_of_extends (h : Drives Q W tiles c) (hext : Extends c.sender more d.sender)
    (hout : c.segmentsOut = d.segmentsOut) : ∀ t ∈ tiles ++ more, d.Pushed t.seg := by
  intro t ht
  have hqueue := hext.segmentsOut_eq
  rcases List.mem_append.mp ht with hold | hnew
  · refine (h.pushed t hold).mono ?_ hout
    rw [hqueue]
    exact List.subset_append_left _ _
  · left
    rw [hqueue]
    exact List.mem_append_right _ (List.mem_map_of_mem hnew)

/-- Whatever waits in the queue of the sender leaves with it. -/
theorem Pushed.leaves {seg : TCPSegment} (h : c.Pushed seg) (setRst : Bool) :
    ∃ out ∈ c.segmentsOut ++ dressAll c.receiver setRst c.sender.segmentsOut, out.Copies seg := by
  rcases h with hwaits | ⟨out, hmem, hcopy⟩
  · obtain ⟨out, hout, hcopy⟩ := exists_copy_mem_dressAll c.receiver setRst hwaits
    exact ⟨out, List.mem_append_right _ hout, hcopy⟩
  · exact ⟨out, List.mem_append_left _ hmem, hcopy⟩

/-- A connection that is inactive once the window is filled is in error or has its FIN
acknowledged. -/
theorem Drives.closed_fillWindow (h : Drives Q W tiles c)
    (hinactive : c.isActive = false ∨ c.sender.fillWindow.stream.isInputEnded = true ∧
      c.sender.fillWindow.bytesInFlight = 0) :
    c.sender.fillWindow.stream.error = true ∨
      c.sender.fillWindow.fin = true ∧
        c.sender.fillWindow.checkpoint = c.sender.fillWindow.nextSeqno := by
  obtain ⟨tiles', hfills⟩ := c.sender.fillWindow_fills
  rcases hinactive with hbefore | ⟨hended, hidle⟩
  · rcases h.closed hbefore with herror | ⟨hfin, hcp⟩
    · exact Or.inl (hfills.frame.error_eq.trans herror)
    · have hsame := (hfills.eq_of_fin (h.history.syn_of_fin hfin) hfin).2
      rw [hsame]
      exact Or.inr ⟨hfin, hcp⟩
  · have hinput : c.sender.stream.isInputEnded = true :=
      hfills.frame.ended_eq.symm.trans hended
    exact Or.inr (h.sound.closed_of_idle hinput hidle)

theorem Drives.sendSegments (h : Drives Q W tiles c) (setRst : Bool) :
    ∃ more, Continues Q W tiles more c (c.sendSegments setRst) := by
  obtain ⟨more, hist, hext⟩ := h.history.fillWindow h.sound
  have hqueue := h.waits_of_extends hext
  have hpushed := h.pushed_of_extends (d := { c with sender := c.sender.fillWindow }) hext rfl
  have hshut := (c.transmit setRst).cleanShutdown_eq
  have hdown := cleanShutdown_isActive (c := c.transmit setRst)
  refine ⟨more, ?_⟩
  rw [TCPConnection.sendSegments]
  generalize (c.transmit setRst).cleanShutdown = e at hshut hdown ⊢
  rw [hshut]
  refine ⟨⟨h.sound.fillWindow.segmentsOut_congr [], ?_, ?_, ?_, ?_, ?_, h.ready, ?_⟩, hext.isn_eq,
    hext.finished⟩
  · exact hist.frame rfl rfl rfl rfl hist.sent_eq hist.outstanding
  · exact fun t ht => Or.inr ((hpushed t ht).leaves setRst)
  · intro seg hseg
    cases hseg
  · intro seg hseg
    rcases List.mem_append.mp hseg with hold | hnew
    · exact (h.emitted seg hold).mono more
    · obtain ⟨orig, horig, rst, rfl⟩ := mem_dressAll hnew
      exact (hqueue orig horig).travels rst
  · intro seg hseg hack
    rcases List.mem_append.mp hseg with hold | hnew
    · exact h.acks seg hold hack
    · obtain ⟨orig, horig, rst, rfl⟩ := mem_dressAll hnew
      exact h.ready _ (dress_ack ((hqueue orig horig).plain hist) hack)
  · exact fun hinactive => h.closed_fillWindow (hdown hinactive)

theorem Drives.killConnection (h : Drives Q W tiles c) : Drives Q W tiles c.killConnection :=
  ⟨h.sound.setError, h.history.frame rfl rfl rfl rfl h.history.sent_eq h.history.outstanding,
    h.pushed, h.waiting, h.emitted, h.acks, h.ready, fun _ => Or.inl rfl⟩

theorem Drives.sendEmptySegment (h : Drives Q W tiles c) :
    Drives Q W tiles c.sendEmptySegment := by
  refine ⟨h.sound.sendEmptySegment, h.history.sendEmptySegment, ?_, ?_, h.emitted, h.acks, h.ready,
    h.closed⟩
  · intro t ht
    exact (h.pushed t ht).mono (List.subset_append_left _ _) rfl
  · intro seg hseg
    rcases List.mem_append.mp hseg with hold | hnew
    · exact h.waiting seg hold
    · exact Or.inr ⟨_, List.mem_singleton.mp hnew⟩

theorem Drives.move (h : Drives Q W tiles c) (hmove : Move c d) :
    ∃ more, Continues Q W tiles more c d := by
  cases hmove with
  | send setRst => exact h.sendSegments setRst
  | kill => exact ⟨[], h.killConnection.refl rfl rfl⟩
  | empty => exact ⟨[], h.sendEmptySegment.refl rfl rfl⟩

/-- The parts of the endpoint the invariant does not mention. -/
theorem Drives.receiver_congr (h : Drives Q W tiles c) {v : TCPReceiver} (time : ℕ)
    (hready : ∀ ackno, v.ackno = some ackno → Q ackno) :
    Drives Q W tiles { c with receiver := v, timeSinceLastSegmentReceived := time } :=
  ⟨h.sound, h.history, h.pushed, h.waiting, h.emitted, h.acks, hready, h.closed⟩

theorem Drives.ackReceived (h : Drives Q W tiles c) (ackno : WrappingInt32) (win : UInt16) :
    ∃ more, Continues Q W tiles more c { c with sender := c.sender.ackReceived ackno win } := by
  obtain ⟨more, hist, hext⟩ := h.history.ackReceived h.sound ackno win
  refine ⟨more, ⟨h.sound.ackReceived ackno win, hist, h.pushed_of_extends hext rfl,
    h.waits_of_extends hext, ?_, h.acks, h.ready, ?_⟩, hext.isn_eq, hext.finished⟩
  · intro seg hseg
    exact (h.emitted seg hseg).mono more
  · intro hinactive
    rcases h.closed hinactive with herror | ⟨hfin, hcp⟩
    · exact Or.inl (hext.error_eq.trans herror)
    · refine Or.inr ⟨(hext.finished hfin).2, ?_⟩
      rcases c.sender.ackReceived_cases ackno win with ⟨heq, -⟩ | ⟨-, hlo, hhi⟩
      · change (c.sender.ackReceived ackno win).checkpoint =
          (c.sender.ackReceived ackno win).nextSeqno
        rw [heq]
        exact hcp
      · omega

theorem Drives.takeIn (h : Drives Q W tiles c) (seg : TCPSegment)
    (hready : ∀ ackno, (c.receiver.segmentReceived seg).ackno = some ackno → Q ackno) :
    ∃ more, Continues Q W tiles more c (c.takeIn seg) := by
  have hfed := h.receiver_congr c.timeSinceLastSegmentReceived hready
  simp only [TCPConnection.takeIn]
  split
  · obtain ⟨more, hmore⟩ := hfed.ackReceived seg.header.ackno seg.header.win
    exact ⟨more, hmore.drives, hmore.isn_eq, hmore.finished⟩
  · exact ⟨[], hfed.refl rfl rfl⟩

theorem Drives.tickSender (h : Drives Q W tiles c) (ms time : ℕ) :
    Drives Q W tiles { c with
      sender := c.sender.tick ms, timeSinceLastSegmentReceived := time } := by
  have hpushed := c.sender.tick_segmentsOut ms
  refine ⟨h.sound.tick ms, h.history.tick ms, ?_, ?_, h.emitted, h.acks, h.ready, ?_⟩
  · intro t ht
    refine (h.pushed t ht).mono ?_ rfl
    rw [hpushed]
    exact List.subset_append_left _ _
  · intro seg hseg
    rw [hpushed] at hseg
    rcases List.mem_append.mp hseg with hold | hnew
    · exact h.waiting seg hold
    · cases hq : c.sender.segmentsInFlight with
      | nil =>
        rw [hq] at hnew
        cases hnew
      | cons t ts =>
        rw [hq] at hnew
        dsimp only at hnew
        split at hnew
        · have ht : t ∈ tiles := h.history.outstanding.subset (hq ▸ List.mem_cons_self)
          exact Or.inl ⟨t, ht, List.mem_singleton.mp hnew⟩
        · cases hnew
  · intro hinactive
    have hclosed := h.closed hinactive
    rw [tick_eq]
    exact hclosed

theorem Drives.writeStream (h : Drives Q W tiles c) {data : List Byte}
    (hfits : c.sender.MarkerFits (.write data)) :
    Drives Q (W ++ data.take (c.sender.stream.writeSize data)) tiles
      { c with sender := c.sender.writeStream data } := by
  refine ⟨h.sound.writeStream data, h.history.writeStream h.sound hfits, h.pushed, h.waiting,
    h.emitted, h.acks, h.ready, ?_⟩
  have herror : (c.sender.stream.write data).error = c.sender.stream.error := by
    rw [ByteStream.write_frame]
  intro hinactive
  rcases h.closed hinactive with hset | hfin
  · exact Or.inl (herror.trans hset)
  · exact Or.inr hfin

/-- A call extends the history by the tiles it sends and the bytes it accepts. -/
theorem Drives.step (h : Drives Q W tiles c) {op : Op}
    (hfits : ∀ data, op = .write data → c.sender.MarkerFits (.write data))
    (hready : ∀ ackno, (c.prelude op).receiver.ackno = some ackno → Q ackno) :
    ∃ more, Continues Q (W ++ c.accepted op) tiles more c (c.step op) := by
  have hpre : ∃ more, Continues Q (W ++ c.accepted op) tiles more c (c.prelude op) := by
    cases op with
    | write data => exact ⟨[], (h.writeStream (hfits data rfl)).refl rfl rfl⟩
    | segmentReceived seg =>
      simp only [accepted, List.append_nil]
      have hzero : Drives Q W tiles { c with timeSinceLastSegmentReceived := 0 } :=
        h.receiver_congr 0 h.ready
      rcases c.prelude_segmentReceived seg with ⟨-, heq⟩ | ⟨-, heq⟩
      · rw [heq]
        exact ⟨[], hzero.refl rfl rfl⟩
      · rw [heq, takeIn_receiver] at hready
        rw [heq]
        obtain ⟨more, hmore⟩ := hzero.takeIn seg hready
        exact ⟨more, hmore.drives, hmore.isn_eq, hmore.finished⟩
    | tick ms =>
      simp only [accepted, List.append_nil]
      refine ⟨[], (h.tickSender ms _).refl ?_ ?_⟩
      · change (c.sender.tick ms).isn = c.sender.isn
        rw [tick_eq]
      · change (c.sender.tick ms).fin = c.sender.fin
        rw [tick_eq]
    | endInputStream =>
      simp only [accepted, List.append_nil]
      have hended : Drives Q W tiles { c with sender := c.sender.endStream } :=
        ⟨h.sound.endStream, h.history.endStream, h.pushed, h.waiting, h.emitted, h.acks, h.ready,
          h.closed⟩
      exact ⟨[], hended.refl rfl rfl⟩
    | connect =>
      simp only [accepted, List.append_nil]
      exact ⟨[], h.refl rfl rfl⟩
    | read len =>
      simp only [accepted, List.append_nil]
      exact ⟨[], (h.receiver_congr c.timeSinceLastSegmentReceived hready).refl rfl rfl⟩
    | pop len =>
      simp only [accepted, List.append_nil]
      exact ⟨[], (h.receiver_congr c.timeSinceLastSegmentReceived hready).refl rfl rfl⟩
  refine step_induct (I := fun d => ∃ more, Continues Q (W ++ c.accepted op) tiles more c d) ?_ hpre
  rintro d e hmove ⟨more, hmore⟩
  obtain ⟨more', hmore'⟩ := hmore.drives.move hmove
  exact ⟨more ++ more', hmore.trans hmore'⟩

end Moves

end TCPConnection
end Sponge
