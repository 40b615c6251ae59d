import Sponge.SenderInvariant

/-!
# Everything a sender ever sent

`History W tiles s` relates the sender `s` to the bytes `W` its stream accepted
and to the new tiles it sent, in order. The tiles cover the sequence space from
zero and carry the bytes that have left the stream; the first is the SYN and
nothing follows the FIN.
-/
namespace Sponge
open MachineWords TCPSegment
namespace TCPSender

def payloads (tiles : List OrderedSegment) : List Byte :=
  (tiles.map fun t => t.seg.payload).flatten

@[simp] theorem payloads_nil : payloads [] = [] := rfl

@[simp] theorem payloads_snoc (tiles : List OrderedSegment) (t : OrderedSegment) :
    payloads (tiles ++ [t]) = payloads tiles ++ t.seg.payload := by
  simp [payloads]

def synSegment (isn : WrappingInt32) : TCPSegment :=
  { header := { syn := true, seqno := wrap 0 isn } }

structure History (W : List Byte) (tiles : List OrderedSegment) (s : TCPSender) : Prop where
  cover : Tiles OrderedSegment.absSeqno OrderedSegment.length 0 tiles s.nextSeqno
  header_eq : ∀ t ∈ tiles, t.seg.header =
    { seqno := wrap t.absSeqno s.isn, syn := t.seg.header.syn, fin := t.seg.header.fin }
  unsent : s.syn = false → tiles = [] ∧ s.fin = false
  opened : s.syn = true → ∃ rest, tiles = ⟨0, synSegment s.isn⟩ :: rest ∧
    ∀ t ∈ rest, t.seg.header.syn = false ∧ t.seg.payload.length ≤ maxPayloadSize
  sent_eq : payloads tiles ++ s.stream.contents = W
  next_eq : s.syn = true →
    s.nextSeqno = 1 + (payloads tiles).length + (if s.fin then 1 else 0)
  carries : ∀ t ∈ tiles, t.seg.Carries s.isn (payloads tiles) (t.absSeqno - 1)
  fin_last : ∀ t ∈ tiles, t.seg.header.fin = true →
    s.fin = true ∧ t.absSeqno + t.length = s.nextSeqno
  outstanding : s.segmentsInFlight <:+ tiles

section Send
variable {W : List Byte} {tiles : List OrderedSegment} {s t : TCPSender} {seg : TCPSegment}

/-- The first send: nothing was sent before, and it is the SYN. -/
theorem History.sendSYN (h : History W tiles s) (hsound : Sound s) (hsyn : s.syn = false) :
    History W (tiles ++ [⟨s.nextSeqno, synSegment s.isn⟩]) s.sendSYN := by
  obtain ⟨rfl, hfin⟩ := h.unsent hsyn
  have hzero : s.nextSeqno = 0 := hsound.unsent hsyn
  have hqueue : s.segmentsInFlight = [] := List.suffix_nil.mp h.outstanding
  have hstamp : s.stamp { header := { syn := true } } = synSegment s.isn := by
    simp [stamp, synSegment, hzero]
  rw [TCPSender.sendSYN, sendSegment_eq, hstamp, hqueue, hzero]
  refine ⟨⟨rfl, Nat.one_pos, rfl⟩, ?_, ?_, ?_, h.sent_eq, ?_, ?_, ?_, ?_⟩
  · intro t ht
    cases List.mem_singleton.mp ht
    rfl
  · intro h
    cases h
  · intro _
    exact ⟨[], rfl, by simp⟩
  · intro _
    change 0 + 1 = 1 + 0 + if s.fin then 1 else 0
    rw [hfin]
    rfl
  · intro t ht
    cases List.mem_singleton.mp ht
    exact .syn rfl rfl (.nil (le_refl 0))
  · intro t ht hflag
    cases List.mem_singleton.mp ht
    cases hflag
  · exact List.suffix_rfl

/-- A later send: the payload is the next piece of the stream. -/
theorem History.fillStep (h : History W tiles s) (hsound : Sound s) {n : ℕ}
    (hsyn : s.syn = true) (hfin : s.fin = false) (hn : n ≠ 0) (hpending : s.hasPending = true) :
    History W (tiles ++ [⟨s.nextSeqno, s.stamp (s.tile n)⟩]) (s.fillStep n).1 := by
  have hwf := hsound.stream_wf
  have hsent := (TileStep.data n hn hsyn hfin hpending).sent
  obtain ⟨start, hout⟩ := hsound.outstanding
  have hqueue := hout.queue_eq hsent
  have hnext : s.nextSeqno = 1 + (payloads tiles).length := by
    have := h.next_eq hsyn
    rwa [hfin] at this
  have hcut := cut_contents (n := n) hwf
  have hstream := fillStep_stream hfin n
  have hflag := fillStep_fin hfin n
  have hpay : (s.stamp (s.tile n)).payload = (s.cut n).1 := rfl
  refine ⟨?_, ?_, ?_, ?_, ?_, ?_, ?_, ?_, ?_⟩
  · rw [hsent.next_eq]
    exact Tiles.append_iff.mpr ⟨_, h.cover, rfl, tile_length_pos hwf hn hpending, rfl⟩
  · rw [hsent.isn_eq]
    intro t ht
    rcases List.mem_append.mp ht with ht | ht
    · exact h.header_eq t ht
    · cases List.mem_singleton.mp ht
      rfl
  · intro hnot
    rw [hsent.syn_eq] at hnot
    cases hnot
  · intro _
    obtain ⟨rest, hrest, hdata⟩ := h.opened hsyn
    refine ⟨rest ++ [⟨s.nextSeqno, s.stamp (s.tile n)⟩], ?_, ?_⟩
    · rw [hsent.isn_eq, hrest, List.cons_append]
    · intro t ht
      rcases List.mem_append.mp ht with ht | ht
      · exact hdata t ht
      · cases List.mem_singleton.mp ht
        refine ⟨rfl, ?_⟩
        have hlen := cut_length (n := n) hwf
        have hmax := (payloadSize_le n).2
        change (s.cut n).1.length ≤ maxPayloadSize
        omega
  · rw [payloads_snoc, hstream, hpay, List.append_assoc, hcut]
    exact h.sent_eq
  · intro _
    rw [hsent.next_eq, payloads_snoc, hflag, hpay, List.length_append, tile_length, hnext]
    omega
  · rw [hsent.isn_eq, payloads_snoc]
    intro t ht
    rcases List.mem_append.mp ht with ht | ht
    · exact (h.carries t ht).append_right _
    · cases List.mem_singleton.mp ht
      refine .data _ rfl ?_ ?_
      · change wrap s.nextSeqno s.isn = wrap (1 + (s.nextSeqno - 1)) s.isn
        congr 1
        omega
      · change IsSlice _ (s.nextSeqno - 1) _
        rw [hnext, Nat.add_sub_cancel_left]
        exact .of_append_isPrefix List.prefix_rfl
  · intro t ht hf
    rcases List.mem_append.mp ht with ht | ht
    · have hset := (h.fin_last t ht hf).1
      rw [hfin] at hset
      cases hset
    · cases List.mem_singleton.mp ht
      refine ⟨?_, ?_⟩
      · rw [hflag]
        exact hf
      · rw [hsent.next_eq]
        rfl
  · rw [hqueue]
    obtain ⟨done, hdone⟩ := h.outstanding
    exact ⟨done, by rw [← hdone, List.append_assoc]⟩

theorem History.send (h : History W tiles s) (hsound : Sound s) (hstep : TileStep s seg t) :
    History W (tiles ++ [⟨s.nextSeqno, s.stamp seg⟩]) t := by
  cases hstep with
  | syn hsyn =>
    have hstamp : s.stamp { header := { syn := true } } = synSegment s.isn := by
      simp [stamp, synSegment, hsound.unsent hsyn]
    rw [hstamp]
    exact h.sendSYN hsound hsyn
  | data n hn hsyn hfin hpending => exact h.fillStep hsound hsyn hfin hn hpending

/-- Filling the window extends the history by the tiles it sends. -/
theorem History.fills {more : List OrderedSegment} (h : History W tiles s) (hsound : Sound s)
    (hfills : Fills s more t) : History W (tiles ++ more) t := by
  induction hfills generalizing tiles with
  | refl s =>
    rw [List.append_nil]
    exact h
  | cons hstep _ ih =>
    have hrest := ih (h.send hsound hstep) (hsound.send hstep)
    rwa [List.append_assoc, List.singleton_append] at hrest

/-- Nothing is sent after the FIN. -/
theorem Fills.eq_of_fin {more : List OrderedSegment} (hfills : Fills s more t)
    (hsyn : s.syn = true) (hfin : s.fin = true) : more = [] ∧ t = s := by
  cases hfills with
  | refl => exact ⟨rfl, rfl⟩
  | cons hstep _ =>
    cases hstep with
    | syn hnot => exact absurd (hsyn.symm.trans hnot) (by decide)
    | data _ _ _ hnot => exact absurd (hfin.symm.trans hnot) (by decide)

/-- A FIN is sent only after the input has ended, and with it the stream is empty. -/
theorem Fills.drained {more : List OrderedSegment} (hfills : Fills s more t)
    {u : OrderedSegment} (hu : u ∈ more) (hfin : u.seg.header.fin = true) :
    s.stream.isInputEnded = true ∧ t.stream.contents = [] := by
  induction hfills with
  | refl s => cases hu
  | @cons s t v seg tiles hstep hrest ih =>
    have hended := hstep.sent.ended_eq
    rcases List.mem_cons.mp hu with rfl | hu
    · cases hstep with
      | syn => cases hfin
      | data n hn hsyn hopen hpending =>
        obtain ⟨hinput, hempty⟩ := cutFin_drained (s := s) (n := n) hfin
        have hflag : (s.fillStep n).1.fin = true := (fillStep_fin hopen n).trans hfin
        have hopened := (TileStep.data n hn hsyn hopen hpending).sent.syn_eq
        rw [(hrest.eq_of_fin hopened hflag).2, fillStep_stream hopen]
        exact ⟨hinput, hempty⟩
    · rw [← hended]
      exact ih hu

end Send

section Step
variable {W : List Byte} {tiles : List OrderedSegment} {s t : TCPSender}

/-- The history says nothing about the rest of the sender. -/
theorem History.frame {W' : List Byte} (h : History W tiles s) (hisn : t.isn = s.isn)
    (hsyn : t.syn = s.syn) (hfin : t.fin = s.fin) (hnext : t.nextSeqno = s.nextSeqno)
    (hsent : payloads tiles ++ t.stream.contents = W') (hqueue : t.segmentsInFlight <:+ tiles) :
    History W' tiles t := by
  refine ⟨?_, ?_, ?_, ?_, hsent, ?_, ?_, ?_, hqueue⟩
  · rw [hnext]
    exact h.cover
  · rw [hisn]
    exact h.header_eq
  · rw [hsyn, hfin]
    exact h.unsent
  · rw [hsyn, hisn]
    exact h.opened
  · rw [hsyn, hfin, hnext]
    exact h.next_eq
  · rw [hisn]
    exact h.carries
  · rw [hfin, hnext]
    exact h.fin_last

theorem History.acknowledge {absAckno : ℕ} (h : History W tiles s) (hsound : Sound s)
    (hlo : s.checkpoint < absAckno) (hhi : absAckno ≤ s.nextSeqno) :
    History W tiles (s.acknowledge absAckno) := by
  obtain ⟨start, hout⟩ := hsound.outstanding
  obtain ⟨-, done, hqueue, -⟩ := hout.acknowledge hlo hhi
  have hsuffix : (s.acknowledge absAckno).segmentsInFlight <:+ tiles :=
    List.IsSuffix.trans ⟨done, hqueue.symm⟩ h.outstanding
  rw [acknowledge_eq] at hsuffix ⊢
  exact h.frame rfl rfl rfl rfl h.sent_eq hsuffix

theorem History.writeStream (h : History W tiles s) (hsound : Sound s) {data : List Byte}
    (hword : s.stream.endOfBuffer + s.stream.writeSize data < 2 ^ 32) :
    History (W ++ data.take (s.stream.writeSize data)) tiles (s.writeStream data) := by
  refine h.frame rfl rfl rfl rfl ?_ h.outstanding
  change payloads tiles ++ (s.stream.write data).contents = _
  rw [hsound.stream_wf.contents_write hword, ← List.append_assoc, h.sent_eq]

theorem History.endStream (h : History W tiles s) : History W tiles s.endStream :=
  h.frame rfl rfl rfl rfl h.sent_eq h.outstanding

theorem History.tick (h : History W tiles s) (ms : ℕ) : History W tiles (s.tick ms) := by
  rw [tick_eq]
  exact h.frame rfl rfl rfl rfl h.sent_eq h.outstanding

theorem History.sendEmptySegment (h : History W tiles s) : History W tiles s.sendEmptySegment :=
  h.frame rfl rfl rfl rfl h.sent_eq h.outstanding

/-- A call that fills the window sends the tiles `more` and takes `s` to `t`. -/
structure Extends (s : TCPSender) (more : List OrderedSegment) (t : TCPSender) : Prop where
  isn_eq : t.isn = s.isn
  error_eq : t.stream.error = s.stream.error
  segmentsOut_eq : t.segmentsOut = s.segmentsOut ++ more.map OrderedSegment.seg
  finished : s.fin = true → more = [] ∧ t.fin = true
  drained : ∀ u ∈ more, u.seg.header.fin = true →
    s.stream.isInputEnded = true ∧ t.stream.contents = []

theorem History.syn_of_fin (h : History W tiles s) (hfin : s.fin = true) : s.syn = true := by
  by_contra hsyn
  have hopen := (h.unsent (Bool.not_eq_true _ ▸ hsyn)).2
  rw [hfin] at hopen
  cases hopen

theorem History.fillWindow (h : History W tiles s) (hsound : Sound s) :
    ∃ more, History W (tiles ++ more) s.fillWindow ∧ Extends s more s.fillWindow := by
  obtain ⟨more, hfills⟩ := s.fillWindow_fills
  obtain ⟨hisn, -, -, -, -, herror⟩ := hfills.frame
  refine ⟨more, h.fills hsound hfills, hisn, herror, hfills.segmentsOut_eq, ?_,
    fun _ => hfills.drained⟩
  intro hfin
  obtain ⟨hmore, hsame⟩ := hfills.eq_of_fin (h.syn_of_fin hfin) hfin
  rw [hsame]
  exact ⟨hmore, hfin⟩

theorem History.ackReceived (h : History W tiles s) (hsound : Sound s) (ackno : WrappingInt32)
    (windowSize : UInt16) :
    ∃ more, History W (tiles ++ more) (s.ackReceived ackno windowSize) ∧
      Extends s more (s.ackReceived ackno windowSize) := by
  have hwin := h.frame (t := { s with rwnd := windowSize.toNat }) rfl rfl rfl rfl h.sent_eq
    h.outstanding
  have hwinSound := hsound.rwnd_congr windowSize
  rcases s.ackReceived_cases ackno windowSize with ⟨heq, -⟩ | ⟨heq, hlo, hhi⟩
  · refine ⟨[], ?_, ?_⟩
    · rw [heq, List.append_nil]
      exact hwin
    · rw [heq]
      exact ⟨rfl, rfl, (List.append_nil _).symm, fun hfin => ⟨rfl, hfin⟩, by simp⟩
  · have hacked := hwin.acknowledge hwinSound hlo hhi
    obtain ⟨more, hmore, hext⟩ := hacked.fillWindow (hwinSound.acknowledge hlo hhi)
    rw [heq]
    refine ⟨more, hmore, ?_⟩
    rw [acknowledge_eq] at hext ⊢
    exact ⟨hext.isn_eq, hext.error_eq, hext.segmentsOut_eq, hext.finished, hext.drained⟩

/-- The end marker of the stream does not wrap in a write. -/
def MarkerFits (s : TCPSender) : Op → Prop
  | .write data => s.stream.endOfBuffer + s.stream.writeSize data < 2 ^ 32
  | _ => True

instance (s : TCPSender) : ∀ op, Decidable (s.MarkerFits op)
  | .write data =>
    inferInstanceAs (Decidable (s.stream.endOfBuffer + s.stream.writeSize data < 2 ^ 32))
  | .endInput => .isTrue trivial
  | .fillWindow => .isTrue trivial
  | .ackReceived _ _ => .isTrue trivial
  | .tick _ => .isTrue trivial
  | .sendEmptySegment => .isTrue trivial

theorem Extends.emitted_eq {more : List OrderedSegment} (h : Extends s more t) :
    t.segmentsOut.drop s.segmentsOut.length = more.map OrderedSegment.seg := by
  rw [h.segmentsOut_eq, List.drop_left]

theorem History.step (h : History W tiles s) (hsound : Sound s) (op : Op)
    (hfits : s.MarkerFits op) :
    ∃ more, History (W ++ s.accepted op) (tiles ++ more) (s.step op) ∧
      more.map OrderedSegment.seg = s.newTiles op ∧ (s.step op).isn = s.isn ∧
      ∀ u ∈ more, u.seg.header.fin = true →
        s.stream.isInputEnded = true ∧ (s.step op).stream.contents = [] := by
  cases op with
  | write data =>
    refine ⟨[], ?_, rfl, rfl, by simp⟩
    rw [List.append_nil]
    exact h.writeStream hsound hfits
  | endInput =>
    refine ⟨[], ?_, rfl, rfl, by simp⟩
    simpa [accepted, TCPSender.step] using h.endStream
  | fillWindow =>
    obtain ⟨more, hmore, hext⟩ := h.fillWindow hsound
    refine ⟨more, ?_, hext.emitted_eq.symm, hext.isn_eq, hext.drained⟩
    simpa [accepted, TCPSender.step] using hmore
  | ackReceived ackno windowSize =>
    obtain ⟨more, hmore, hext⟩ := h.ackReceived hsound ackno windowSize
    refine ⟨more, ?_, hext.emitted_eq.symm, hext.isn_eq, hext.drained⟩
    simpa [accepted, TCPSender.step] using hmore
  | tick ms =>
    refine ⟨[], ?_, rfl, ?_, by simp⟩
    · simpa [accepted, TCPSender.step] using h.tick ms
    · change (s.tick ms).isn = s.isn
      rw [tick_eq]
  | sendEmptySegment =>
    refine ⟨[], ?_, rfl, rfl, by simp⟩
    simpa [accepted, TCPSender.step] using h.sendEmptySegment

/-- What an operation pushes: new tiles, a copy of the outstanding tile with the lowest number,
or an empty segment without flags. -/
theorem Sound.emitted_kinds (hsound : Sound s) {op : Op} {seg : TCPSegment}
    (hseg : seg ∈ s.emitted op) :
    seg ∈ s.newTiles op ∨
    (∃ ms, op = .tick ms) ∧ (∃ t ∈ s.segmentsInFlight, seg = t.seg ∧
      ∀ u ∈ s.segmentsInFlight, t.absSeqno ≤ u.absSeqno) ∨
    op = .sendEmptySegment ∧ seg = { header := { seqno := wrap s.nextSeqno s.isn } } := by
  cases op with
  | fillWindow => exact Or.inl hseg
  | ackReceived ackno windowSize => exact Or.inl hseg
  | write data =>
    rw [show s.emitted (.write data) = [] from List.drop_length] at hseg
    cases hseg
  | endInput =>
    rw [show s.emitted .endInput = [] from List.drop_length] at hseg
    cases hseg
  | sendEmptySegment =>
    rw [show s.emitted .sendEmptySegment = [s.emptySegment] from List.drop_left] at hseg
    cases List.mem_singleton.mp hseg
    exact Or.inr (Or.inr ⟨rfl, rfl⟩)
  | tick ms =>
    obtain ⟨start, hout⟩ := hsound.outstanding
    have htiles := hout.tiles
    have hpushed := s.tick_segmentsOut ms
    refine Or.inr (Or.inl ⟨⟨ms, rfl⟩, ?_⟩)
    change seg ∈ (s.tick ms).segmentsOut.drop s.segmentsOut.length at hseg
    rw [hpushed, List.drop_left] at hseg
    cases hq : s.segmentsInFlight with
    | nil =>
      rw [hq] at hseg
      cases hseg
    | cons t ts =>
      rw [hq] at hseg htiles
      dsimp only at hseg
      split at hseg
      · refine ⟨t, List.mem_cons_self, List.mem_singleton.mp hseg, ?_⟩
        intro u hu
        rw [htiles.1]
        exact (htiles.bounds hu).1
      · cases hseg

/-- An operation that sends a FIN finds the input ended and leaves the stream empty. -/
theorem History.drained_of_newTiles (h : History W tiles s) (hsound : Sound s) {op : Op}
    {seg : TCPSegment} (hseg : seg ∈ s.newTiles op) (hfin : seg.header.fin = true) :
    s.stream.inputEnded = true ∧ (s.step op).stream.bufferEmpty = true := by
  have hfits : s.MarkerFits op := by
    cases op with
    | write data => cases hseg
    | _ => trivial
  obtain ⟨more, -, htiles, -, hdrained⟩ := h.step hsound op hfits
  rw [← htiles] at hseg
  obtain ⟨u, hu, rfl⟩ := List.mem_map.mp hseg
  obtain ⟨hended, hempty⟩ := hdrained u hu hfin
  exact ⟨hended, (hsound.step op).stream_wf.bufferEmpty_iff.mpr hempty⟩

/-- No tile follows a FIN. -/
theorem History.eq_nil_of_fin {before after : List OrderedSegment} {u : OrderedSegment}
    (h : History W (before ++ u :: after) s) (hfin : u.seg.header.fin = true) : after = [] := by
  have hend := (h.fin_last u (by simp) hfin).2
  obtain ⟨m, -, hm⟩ := Tiles.append_iff.mp h.cover
  refine hm.2.2.eq_nil_iff.mpr ?_
  rw [← hm.1]
  exact hend

end Step

theorem history_new {capacity : ℕ} {retxTimeout : UInt16} {fixedIsn : Option WrappingInt32}
    {random : WrappingInt32} {s : TCPSender}
    (h : new capacity retxTimeout fixedIsn random = some s) : History [] [] s := by
  obtain ⟨stream, hstream, rfl⟩ := new_eq_some h
  have hempty : stream.contents = [] := by
    rw [(ByteStream.new_eq_some hstream).2]
    rfl
  refine ⟨rfl, by simp, fun _ => ⟨rfl, rfl⟩, ?_, hempty, ?_, by simp, by simp, List.suffix_rfl⟩
  · intro h
    cases h
  · intro h
    cases h

/-- The history of a run: the tiles are those collected along it, and the bytes those its
writes accepted. -/
theorem history_run {s₀ : TCPSender} (hsound : Sound s₀) (hempty : History [] [] s₀)
    {ops : List Op} (hops : (machine.restrict MarkerFits).Admits s₀ ops) :
    (machine.run s₀ ops).isn = s₀.isn ∧
    ∃ tiles, tiles.map OrderedSegment.seg = machine.collect newTiles s₀ ops ∧
      History (machine.collect accepted s₀ ops) tiles (machine.run s₀ ops) := by
  refine (machine.restrict MarkerFits).run_induction
    (P := fun ops => (machine.run s₀ ops).isn = s₀.isn ∧
      ∃ tiles, tiles.map OrderedSegment.seg = machine.collect newTiles s₀ ops ∧
        History (machine.collect accepted s₀ ops) tiles (machine.run s₀ ops))
    ⟨rfl, [], rfl, hempty⟩ ?_ hops
  rintro past op - ⟨-, hfits⟩ ⟨hisn, tiles, hmap, hist⟩
  obtain ⟨more, hmore, htiles, hstep, -⟩ := hist.step (hsound.run past) op hfits
  simp only [Machine.run_snoc, Machine.collect_snoc]
  refine ⟨hstep.trans hisn, tiles ++ more, ?_, hmore⟩
  rw [List.map_append, hmap, htiles]

/-- The sender tiles the sequence space, in every run in which the end marker of its stream
does not wrap. -/
theorem tiles_sequence_space {capacity : ℕ} {retxTimeout : UInt16}
    {fixedIsn : Option WrappingInt32} {random : WrappingInt32} {s₀ : TCPSender}
    (hnew : new capacity retxTimeout fixedIsn random = some s₀) {ops : List Op}
    (hops : (machine.restrict MarkerFits).Admits s₀ ops) :
    let s := machine.run s₀ ops
    (∀ op, ∀ seg ∈ s.emitted op, seg ∈ s.newTiles op ∨
      (∃ ms, op = .tick ms) ∧ (∃ t ∈ s.segmentsInFlight, seg = t.seg ∧
        ∀ u ∈ s.segmentsInFlight, t.absSeqno ≤ u.absSeqno) ∨
      op = .sendEmptySegment ∧ seg = { header := { seqno := wrap s.nextSeqno s₀.isn } }) ∧
    (∀ op, ∀ seg ∈ s.newTiles op, seg.header.fin = true →
      s.stream.inputEnded = true ∧ (s.step op).stream.bufferEmpty = true) ∧
    ∃ tiles : List OrderedSegment,
      tiles.map OrderedSegment.seg = machine.collect newTiles s₀ ops ∧
      Tiles OrderedSegment.absSeqno OrderedSegment.length 0 tiles s.nextSeqno ∧
      (∀ t ∈ tiles, t.seg.header.seqno = wrap t.absSeqno s₀.isn) ∧
      (tiles = [] ∨ ∃ rest, tiles = ⟨0, synSegment s₀.isn⟩ :: rest ∧
        ∀ t ∈ rest, t.seg.header.syn = false ∧ t.seg.payload.length ≤ maxPayloadSize ∧
          0 < t.length) ∧
      payloads tiles ++ s.stream.contents = machine.collect accepted s₀ ops ∧
      (∀ before t after, tiles = before ++ t :: after → t.seg.header.fin = true → after = []) ∧
      s.segmentsInFlight <:+ tiles := by
  have hsound := (sound_new hnew).run ops
  obtain ⟨hisn, tiles, hmap, hist⟩ := history_run (sound_new hnew) (history_new hnew) hops
  simp only [← hisn]
  generalize machine.run s₀ ops = s at hsound hist ⊢
  refine ⟨fun op seg => hsound.emitted_kinds, ?_, tiles, hmap, hist.cover, ?_, ?_,
    hist.sent_eq, ?_, hist.outstanding⟩
  · intro op seg hseg hfin
    exact hist.drained_of_newTiles hsound hseg hfin
  · intro t ht
    rw [hist.header_eq t ht]
  · cases hsyn : s.syn with
    | false => exact Or.inl (hist.unsent hsyn).1
    | true =>
      obtain ⟨rest, hrest, hdata⟩ := hist.opened hsyn
      refine Or.inr ⟨rest, hrest, ?_⟩
      intro t ht
      have hpos : 0 < t.length := hist.cover.len_pos (hrest ▸ List.mem_cons_of_mem _ ht)
      exact ⟨(hdata t ht).1, (hdata t ht).2, hpos⟩
  · intro before t after hsplit hfin
    exact (hsplit ▸ hist).eq_nil_of_fin hfin

theorem tiles_sequence_space_closed :
    ∃ s₀, new 8 1000 (some ⟨5⟩) ⟨0⟩ = some s₀ ∧
      let ops := [.fillWindow, .ackReceived ⟨6⟩ 9, .write [1, 2, 3], .endInput, .fillWindow]
      (machine.restrict MarkerFits).Admits s₀ ops ∧
      let s := machine.run s₀ ops
      ∃ tiles : List OrderedSegment,
        tiles.map OrderedSegment.seg = machine.collect newTiles s₀ ops ∧
        Tiles OrderedSegment.absSeqno OrderedSegment.length 0 tiles s.nextSeqno ∧
        payloads tiles ++ s.stream.contents = machine.collect accepted s₀ ops := by
  refine ⟨_, rfl, by decide, ?_⟩
  obtain ⟨-, -, tiles, hmap, hcover, -, -, hsent, -⟩ := tiles_sequence_space
    (show new 8 1000 (some ⟨5⟩) ⟨0⟩ = some _ from rfl)
    (show (machine.restrict MarkerFits).Admits _
      [.fillWindow, .ackReceived ⟨6⟩ 9, .write [1, 2, 3], .endInput, .fillWindow] by decide)
  exact ⟨tiles, hmap, hcover, hsent⟩

section Wrap

/-- A new sender with initial sequence number 5 around the stream `b`. -/
def around (b : ByteStream) : TCPSender where
  isn := ⟨5⟩
  segmentsOut := []
  initialRetransmissionTimeout := 1000
  stream := b
  nextSeqno := 0
  segmentsInFlight := []
  syn := false
  fin := false
  isTimerRunning := false
  timeSpent := 0
  rwnd := 1
  bytesInFlight := 0
  checkpoint := 0
  nConsecutiveRetransmissions := 0
  rto := 0

/-- With room for one byte and one byte buffered, that byte is sent. -/
theorem fillWindow_one {s : TCPSender} (hwf : s.stream.Wf) {c : Byte}
    (hone : s.stream.contents = [c])
    (hsyn : s.syn = true) (hfin : s.fin = false) (hroom : s.remainingWindow = 1) :
    s.fillWindow.segmentsOut = s.segmentsOut ++ [s.stamp { payload := [c] }] := by
  have hend : s.stream.endOfBuffer = 1 := by
    rw [← hwf.length_contents, hone]
    rfl
  have hpay : (s.cut 1).1 = [c] := by
    rw [cut, ByteStream.read_fst, hone]
    rfl
  have hcut : s.cutFin 1 = false := by
    rw [cutFin, hpay]
    simp
  have hpending : s.hasPending = true := by
    simp [hasPending, ByteStream.bufferEmpty, hend]
  have hleft : (s.fillStep 1).2 = 0 := by
    rw [fillStep_snd, hcut]
    rfl
  have hfill : s.fillWindow = (s.fillStep 1).1 := by
    rw [fillWindow, hsyn, hroom, ByteStream.bufferSize, hend]
    change fillLoop 2 s 1 = _
    rw [fillLoop, if_neg (by simp [hfin]), if_pos hpending, hleft]
    exact if_pos (Or.inl rfl)
  rw [hfill, fillStep_fst hfin, sendSegment_eq, tile, hpay, hcut]
  rfl

theorem around_emits {b : ByteStream} (hwf : b.Wf) {c : Byte} (hone : b.contents = [c]) :
    machine.collect newTiles (around b) [.fillWindow, .ackReceived ⟨6⟩ 1] =
      [synSegment ⟨5⟩, { header := { seqno := ⟨6⟩ }, payload := [c] }] := by
  have hunwrap : unwrap ⟨6⟩ ⟨5⟩ 0 = 1 := by decide
  have hack : (around b).fillWindow.ackReceived ⟨6⟩ 1 =
      ({ (around b).fillWindow with rwnd := 1 }.acknowledge 1).fillWindow := by
    rcases (around b).fillWindow.ackReceived_cases ⟨6⟩ 1 with ⟨-, hout⟩ | ⟨heq, -⟩
    · exact absurd (hunwrap ▸ hout : 1 < 1 ∨ 1 ≤ 0) (by decide)
    · rw [heq]
      change (TCPSender.acknowledge _ (unwrap ⟨6⟩ ⟨5⟩ 0)).fillWindow = _
      rw [hunwrap]
      rfl
  generalize hs : ({ (around b).fillWindow with rwnd := 1 } : TCPSender).acknowledge 1 = s at hack
  rw [acknowledge_eq] at hs
  have hroom : s.remainingWindow = 1 := by
    rw [remainingWindow, ← hs]
    change subMod 64 1 (1 - 1) = 1
    decide
  have hstream : s.stream = b := by
    rw [← hs]
    rfl
  have hsent := fillWindow_one (hstream ▸ hwf) (hstream ▸ hone) (by rw [← hs]; rfl)
    (by rw [← hs]; rfl) hroom
  have hout : s.segmentsOut = [synSegment ⟨5⟩] := by
    rw [← hs]
    rfl
  have hstamp : s.stamp { payload := [c] } = { header := { seqno := ⟨6⟩ }, payload := [c] } := by
    rw [stamp, ← hs]
    rfl
  change [synSegment ⟨5⟩] ++ ((around b).fillWindow.ackReceived ⟨6⟩ 1).segmentsOut.drop 1 = _
  rw [hack, hsent, hout, hstamp]
  rfl

/-- Filling a buffer of `2 ^ 32` bytes wraps its end marker to zero. -/
theorem wraps_to_zero {b : ByteStream} (hwf : b.Wf) (hcap : b.capacity = 2 ^ 32)
    (hzero : b.endOfBuffer = 0) {half : List Byte} (hhalf : half.length = 2 ^ 31) :
    b.writeSize half = 2 ^ 31 ∧ (b.write half).writeSize half = 2 ^ 31 ∧
      ((b.write half).write half).endOfBuffer = 0 := by
  have hcap' : (b.write half).capacity = 2 ^ 32 := by
    rw [b.write_frame half]
    exact hcap
  have hfirst : b.writeSize half = 2 ^ 31 := by
    rw [hwf.writeSize_eq, hcap, hzero, hhalf]
    rfl
  have hmid : (b.write half).endOfBuffer = 2 ^ 31 := by
    rw [hwf.endOfBuffer_write_eq, hzero, hfirst]
    rfl
  have hsecond : (b.write half).writeSize half = 2 ^ 31 := by
    rw [hwf.write.writeSize_eq, hcap', hmid, hhalf]
    rfl
  refine ⟨hfirst, hsecond, ?_⟩
  rw [hwf.write.endOfBuffer_write_eq, hmid, hsecond]
  rfl

/-- The byte at the front of the stream has been overwritten. -/
theorem tiles_lose_bytes_when_marker_wraps :
    ∃ s₀, new (2 ^ 32) 1000 (some ⟨5⟩) ⟨0⟩ = some s₀ ∧
      let half := List.replicate (2 ^ 31) 1
      let ops := [.write half, .write half, .write [2], .fillWindow, .ackReceived ⟨6⟩ 1]
      machine.collect accepted s₀ ops = half ++ half ++ [2] ∧
      machine.collect newTiles s₀ ops =
        [synSegment ⟨5⟩, { header := { seqno := ⟨6⟩ }, payload := [2] }] ∧
      ¬ [2] <+: machine.collect accepted s₀ ops := by
  obtain ⟨b, hb⟩ : ∃ b, ByteStream.new (2 ^ 32) = some b :=
    ⟨_, if_pos (show 2 ^ 32 ≤ stringMaxSize by decide)⟩
  have hs : new (2 ^ 32) 1000 (some ⟨5⟩) ⟨0⟩ = some (around b) := by
    simp only [new, hb]
    rfl
  have hwf := ByteStream.wf_new hb
  obtain ⟨-, hnew⟩ := ByteStream.new_eq_some hb
  have hcap : b.capacity = 2 ^ 32 := by rw [hnew]
  have hzero : b.endOfBuffer = 0 := by rw [hnew]
  have hhalf : (List.replicate (2 ^ 31) (1 : Byte)).length = 2 ^ 31 := List.length_replicate
  have hhead : (List.replicate (2 ^ 31) (1 : Byte)).head? = some 1 := by
    rw [List.head?_replicate, if_neg (by decide)]
  refine ⟨around b, hs, ?_⟩
  generalize List.replicate (2 ^ 31) (1 : Byte) = half at hhalf hhead
  obtain ⟨hfirst, hsecond, hend⟩ := wraps_to_zero hwf hcap hzero hhalf
  have hcap' : ((b.write half).write half).capacity = 2 ^ 32 := by
    rw [ByteStream.write_frame, ByteStream.write_frame]
    exact hcap
  have hwf' : ((b.write half).write half).Wf := hwf.write.write
  generalize hfull : (b.write half).write half = full at hend hwf' hcap'
  have hsize : full.writeSize [2] = 1 := by
    rw [hwf'.writeSize_eq, hcap', hend]
    rfl
  have hthird : (full.write [2]).contents = [2] := by
    rw [hwf'.contents_write (by rw [hend, hsize]; decide), hsize, ByteStream.contents, hend]
    rfl
  have haround : ∀ (b : ByteStream) (data : List Byte),
      machine.step (around b) (.write data) = around (b.write data) := fun _ _ => rfl
  have haccepted : machine.collect accepted (around b)
      [.write half, .write half, .write [2], .fillWindow, .ackReceived ⟨6⟩ 1] =
      half ++ half ++ [2] := by
    have htake : half.take (2 ^ 31) = half := List.take_of_length_le hhalf.le
    simp only [Machine.collect_cons, Machine.collect_nil, haround, accepted, List.append_nil]
    change half.take (b.writeSize half) ++ (half.take ((b.write half).writeSize half) ++
      List.take (ByteStream.writeSize ((b.write half).write half) [2]) [2]) = _
    rw [hfull, hfirst, hsecond, hsize, htake, List.append_assoc]
    rfl
  refine ⟨haccepted, ?_, ?_⟩
  · simp only [Machine.collect_cons machine newTiles _ (.write _), haround, newTiles,
      List.nil_append, hfull]
    exact around_emits hwf'.write hthird
  · rw [haccepted]
    rintro ⟨rest, hrest⟩
    have hfront := congrArg List.head? hrest
    simp [List.head?_append, hhead] at hfront

end Wrap

end TCPSender
end Sponge
