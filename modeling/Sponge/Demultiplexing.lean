import Sponge.Runs
import Sponge.TCPOverIPv4

/-!
# Which segments reach a connection

A listening adapter settles on the source of the first SYN it returns; from then on it returns only
segments from there. `Handles` lists what a datagram can do; everything else is dropped and leaves
no trace.
-/
namespace Sponge

namespace TCPSegment

/-- The segment is what the datagram's one buffer holds, and the checksum over it and the
pseudo-header of the datagram is right. -/
def Intact (ipDgram : InternetDatagram) (seg : TCPSegment) : Prop :=
  ∃ buffer, ipDgram.payload = [buffer] ∧
    (InternetChecksum.add { sum := ipDgram.header.pseudoCksum } buffer).value = 0 ∧
    parse {} buffer ipDgram.header.pseudoCksum = (.noError, seg)

theorem cksum_of_parse {buffer : Buffer} {cksum : UInt32}
    (h : (parse {} buffer cksum).1 = .noError) :
    (InternetChecksum.add { sum := cksum } buffer).value = 0 := by
  by_contra hbad
  rw [parse, if_pos hbad] at h
  cases h

end TCPSegment

namespace TCPOverIPv4Adapter
open TCPSegment

/-- The adapter of a connection between the ends of a datagram. -/
def settled (ipDgram : InternetDatagram) (seg : TCPSegment) : TCPOverIPv4Adapter where
  cfg.source := ⟨some ipDgram.header.dst, seg.header.dport⟩
  cfg.destination := ⟨some ipDgram.header.src, seg.header.sport⟩
  listen := false

/-- What is returned for a datagram, and the adapter after it. -/
inductive Handles (a : TCPOverIPv4Adapter) (ipDgram : InternetDatagram) :
    Option TCPSegment × TCPOverIPv4Adapter → Prop
  | drop : Handles a ipDgram (none, a)
  | first (seg : TCPSegment) (hintact : seg.Intact ipDgram) (hlisten : a.listen = true)
      (hsyn : seg.header.syn = true) (hrst : seg.header.rst = false) :
      Handles a ipDgram (some seg, settled ipDgram seg)
  | next (seg : TCPSegment) (hintact : seg.Intact ipDgram) (hlisten : a.listen = false)
      (hsettled : a = settled ipDgram seg) : Handles a ipDgram (some seg, a)

section Unwrap
variable {a : TCPOverIPv4Adapter} {ipDgram : InternetDatagram}

/-- An adapter that does not listen has IPv4 addresses to compare with. -/
def Addressed (a : TCPOverIPv4Adapter) : Prop :=
  a.listen = false → ∃ x y, a.cfg.source.ipv4 = some x ∧ a.cfg.destination.ipv4 = some y

/-- The address tests do not throw, and a datagram that passes them is the peer's. -/
theorem concerns_cases (ipDgram : InternetDatagram) (h : a.Addressed) :
    a.concerns ipDgram = .ok false ∨ a.concerns ipDgram = .ok true ∧ (a.listen = false →
      a.cfg.source.ipv4 = some ipDgram.header.dst ∧
        a.cfg.destination.ipv4 = some ipDgram.header.src) := by
  cases hlisten : a.listen with
  | true =>
    right
    simp [concerns, hlisten, pure, Except.pure]
  | false =>
    obtain ⟨x, y, hx, hy⟩ := h hlisten
    simp only [concerns, hlisten, Address.ipv4Numeric_eq hx, Address.ipv4Numeric_eq hy, hx, hy,
      bind, Except.bind, pure, Except.pure, Bool.false_eq_true, if_false]
    by_cases hdst : ipDgram.header.dst = x
    · by_cases hsrc : ipDgram.header.src = y
      · right
        simp [hdst, hsrc]
      · left
        simp [hdst, hsrc]
    · left
      simp [hdst]

theorem takeSegment_handles {seg : TCPSegment} (hintact : seg.Intact ipDgram)
    (hpeer : a.listen = false → a.cfg.source.ipv4 = some ipDgram.header.dst ∧
      a.cfg.destination.ipv4 = some ipDgram.header.src) :
    a.Handles ipDgram (a.takeSegment ipDgram seg) := by
  rw [takeSegment]
  by_cases hdport : seg.header.dport = a.cfg.source.port
  · rw [if_neg (not_not.mpr hdport)]
    cases hlisten : a.listen with
    | true =>
      by_cases hopen : (seg.header.syn && !seg.header.rst) = true
      · simp only [Bool.and_eq_true, Bool.not_eq_true'] at hopen
        simp only [hopen, ← hdport, Bool.not_false, Bool.and_true, Bool.not_true, Bool.and_false,
          Bool.false_eq_true, if_false, if_true, ne_eq, not_true_eq_false]
        exact .first seg hintact hlisten hopen.1 hopen.2
      · simp only [Bool.true_and, hopen, Bool.not_false, if_true]
        exact .drop
    | false =>
      obtain ⟨hdst, hsrc⟩ := hpeer hlisten
      simp only [Bool.false_and, Bool.false_eq_true, if_false]
      by_cases hsport : seg.header.sport = a.cfg.destination.port
      · rw [if_neg (not_not.mpr hsport)]
        refine .next seg hintact hlisten ?_
        rw [settled, ← hdst, ← hsrc, hdport, hsport, ← hlisten]
      · rw [if_pos hsport]
        exact .drop
  · rw [if_pos hdport]
    exact .drop

/-- No datagram with one buffer makes an adapter throw. -/
theorem unwrapTCPInIP_handles (h : a.Addressed) {buffer : Buffer}
    (hone : ipDgram.payload = [buffer]) :
    ∃ r, a.unwrapTCPInIP ipDgram = .ok r ∧ a.Handles ipDgram r := by
  rcases concerns_cases ipDgram h with hother | ⟨hconcerns, hpeer⟩
  · exact ⟨(none, a), by simp [unwrapTCPInIP, hother, bind, Except.bind, pure, Except.pure], .drop⟩
  · simp only [unwrapTCPInIP, hconcerns, hone, BufferList.toBuffer, bind, Except.bind, pure,
      Except.pure, Bool.not_true, Bool.false_eq_true, if_false]
    split
    · exact ⟨_, rfl, .drop⟩
    · split
      · exact ⟨_, rfl, .drop⟩
      · next hparse =>
        refine ⟨_, rfl, takeSegment_handles ⟨buffer, hone, ?_, ?_⟩ hpeer⟩
        · exact cksum_of_parse (not_not.mp hparse)
        · exact Prod.ext (not_not.mp hparse) rfl

end Unwrap

/-- The adapter after a datagram. A call that throws does so before it touches the adapter. -/
def step (a : TCPOverIPv4Adapter) (ipDgram : InternetDatagram) : TCPOverIPv4Adapter :=
  match a.unwrapTCPInIP ipDgram with
  | .ok r => r.2
  | .error _ => a

/-- The segment returned for a datagram, with the datagram. -/
def returned (a : TCPOverIPv4Adapter) (ipDgram : InternetDatagram) :
    List (InternetDatagram × TCPSegment) :=
  match a.unwrapTCPInIP ipDgram with
  | .ok (some seg, _) => [(ipDgram, seg)]
  | _ => []

def machine : Machine TCPOverIPv4Adapter InternetDatagram :=
  ⟨step, fun _ ipDgram => ∃ buffer, ipDgram.payload = [buffer]⟩

/-- What an adapter that listened at first has returned, and what it is by now. -/
inductive Serves (a₀ : TCPOverIPv4Adapter) :
    List (InternetDatagram × TCPSegment) → TCPOverIPv4Adapter → Prop
  | waiting : Serves a₀ [] a₀
  | connected (ipDgram : InternetDatagram) (seg : TCPSegment)
      (rest : List (InternetDatagram × TCPSegment)) (hsyn : seg.header.syn = true)
      (hrst : seg.header.rst = false)
      (hrest : ∀ p ∈ rest, settled p.1 p.2 = settled ipDgram seg) :
      Serves a₀ ((ipDgram, seg) :: rest) (settled ipDgram seg)

section Runs
variable {a₀ a : TCPOverIPv4Adapter} {out : List (InternetDatagram × TCPSegment)}

theorem Serves.addressed (h : Serves a₀ out a) (hlisten : a₀.listen = true) : a.Addressed := by
  intro hnot
  cases h with
  | waiting => simp [hlisten] at hnot
  | connected ipDgram seg => exact ⟨_, _, rfl, rfl⟩

theorem Serves.listen_iff (h : Serves a₀ out a) (hlisten : a₀.listen = true) :
    a.listen = true ↔ out = [] := by
  cases h with
  | waiting => simp [hlisten]
  | connected ipDgram seg => simp [settled]

theorem Serves.same_peer {ipDgram : InternetDatagram} {seg : TCPSegment}
    (h : Serves a₀ ((ipDgram, seg) :: out) a) :
    seg.header.syn = true ∧ seg.header.rst = false ∧
      ∀ p ∈ out, p.1.header.src = ipDgram.header.src ∧ p.1.header.dst = ipDgram.header.dst ∧
        p.2.header.sport = seg.header.sport ∧ p.2.header.dport = seg.header.dport := by
  cases h with
  | connected _ _ _ hsyn hrst hrest =>
    refine ⟨hsyn, hrst, fun p hp => ?_⟩
    have hsame := hrest p hp
    simp only [settled, TCPOverIPv4Adapter.mk.injEq, FdAdapterConfig.mk.injEq,
      Address.mk.injEq, Option.some.injEq] at hsame
    obtain ⟨⟨⟨hdst, hdport⟩, hsrc, hsport⟩, -⟩ := hsame
    exact ⟨hsrc, hdst, hsport, hdport⟩

theorem Serves.step {ipDgram : InternetDatagram} (h : Serves a₀ out a)
    (hlisten : a₀.listen = true) (hone : ∃ buffer, ipDgram.payload = [buffer]) :
    Serves a₀ (out ++ a.returned ipDgram) (a.step ipDgram) ∧
      ∀ p ∈ a.returned ipDgram, p.2.Intact p.1 := by
  obtain ⟨buffer, hbuffer⟩ := hone
  obtain ⟨r, hunwrap, hhandles⟩ := unwrapTCPInIP_handles (h.addressed hlisten) hbuffer
  rw [returned, TCPOverIPv4Adapter.step, hunwrap]
  cases hhandles with
  | drop => simpa using h
  | first seg hintact hwaits hsyn hrst =>
    have hout := (h.listen_iff hlisten).mp hwaits
    subst hout
    exact ⟨.connected ipDgram seg [] hsyn hrst (by simp), by simpa using hintact⟩
  | next seg hintact hopen hsettled =>
    refine ⟨?_, by simpa using hintact⟩
    cases h with
    | waiting => simp [hlisten] at hopen
    | connected ipDgram₁ seg₁ rest hsyn hrst hrest =>
      refine .connected ipDgram₁ seg₁ (rest ++ [(ipDgram, seg)]) hsyn hrst ?_
      intro p hp
      rcases List.mem_append.mp hp with hold | hnew
      · exact hrest p hold
      · rw [List.mem_singleton.mp hnew]
        exact hsettled.symm

theorem serves_run {ipDgrams : List InternetDatagram} (hlisten : a₀.listen = true)
    (hone : machine.Admits a₀ ipDgrams) :
    Serves a₀ (machine.collect returned a₀ ipDgrams) (machine.run a₀ ipDgrams) ∧
      ∀ p ∈ machine.collect returned a₀ ipDgrams, p.2.Intact p.1 := by
  refine machine.run_induction (P := fun ipDgrams =>
    Serves a₀ (machine.collect returned a₀ ipDgrams) (machine.run a₀ ipDgrams) ∧
      ∀ p ∈ machine.collect returned a₀ ipDgrams, p.2.Intact p.1) ⟨.waiting, by simp⟩ ?_ hone
  rintro past ipDgram - hbuffer ⟨hserves, hintact⟩
  obtain ⟨hnext, hnew⟩ := hserves.step hlisten hbuffer
  rw [Machine.collect_snoc, Machine.run_snoc]
  refine ⟨hnext, fun p hp => ?_⟩
  rcases List.mem_append.mp hp with hold | hlast
  · exact hintact p hold
  · exact hnew p hlast

/-- A connection hears its own peer only, from the first SYN on. -/
theorem demultiplexing_isolation {ipDgrams : List InternetDatagram} (hlisten : a₀.listen = true)
    (hone : machine.Admits a₀ ipDgrams) :
    let a := machine.run a₀ ipDgrams
    let out := machine.collect returned a₀ ipDgrams
    (a.listen = true ↔ out = []) ∧
    (∀ ipDgram seg rest, out = (ipDgram, seg) :: rest →
      seg.header.syn = true ∧ seg.header.rst = false ∧
      ∀ p ∈ rest, p.1.header.src = ipDgram.header.src ∧ p.1.header.dst = ipDgram.header.dst ∧
        p.2.header.sport = seg.header.sport ∧ p.2.header.dport = seg.header.dport) ∧
    (∀ p ∈ out, p.2.Intact p.1) ∧
    ∀ ipDgram buffer, ipDgram.payload = [buffer] →
      ∃ result a', a.unwrapTCPInIP ipDgram = .ok (result, a') ∧ (result = none → a' = a) := by
  intro a out
  obtain ⟨hserves, hintact⟩ := serves_run hlisten hone
  refine ⟨hserves.listen_iff hlisten, ?_, hintact, ?_⟩
  · intro ipDgram seg rest hout
    rw [show machine.collect returned a₀ ipDgrams = (ipDgram, seg) :: rest from hout] at hserves
    exact hserves.same_peer
  · intro ipDgram buffer hbuffer
    obtain ⟨⟨result, a'⟩, hunwrap, hhandles⟩ :=
      unwrapTCPInIP_handles (hserves.addressed hlisten) hbuffer
    refine ⟨result, a', hunwrap, ?_⟩
    rintro rfl
    cases hhandles
    rfl

end Runs

/-- A segment from port 90 of host 1 to port 80 of host 2, in one buffer. -/
def fromPeer (seg : TCPSegment) : InternetDatagram :=
  let stamped : TCPSegment := { seg with header.sport := 90, header.dport := 80 }
  { ipDatagram 1 2 stamped with payload := [(ipDatagram 1 2 stamped).payload.concatenate] }

theorem demultiplexing_isolation_handshake :
    let a₀ : TCPOverIPv4Adapter := ⟨⟨⟨none, 80⟩, ⟨none, 0⟩⟩, true⟩
    let ipDgrams := [fromPeer { payload := [7] }, fromPeer { header := { syn := true } },
      fromPeer { payload := [7] }]
    machine.Admits a₀ ipDgrams ∧ (machine.collect returned a₀ ipDgrams).length = 2 ∧
      (machine.run a₀ ipDgrams).listen = false := by
  intro a₀ ipDgrams
  have hone : machine.Admits a₀ ipDgrams := ⟨⟨_, rfl⟩, ⟨_, rfl⟩, ⟨_, rfl⟩, trivial⟩
  have hlen : (machine.collect returned a₀ ipDgrams).length = 2 := by decide +kernel
  refine ⟨hone, hlen, ?_⟩
  have hlisten := (demultiplexing_isolation (show a₀.listen = true from rfl) hone).1
  cases hflag : (machine.run a₀ ipDgrams).listen with
  | false => rfl
  | true =>
    rw [hlisten.mp hflag] at hlen
    cases hlen

end TCPOverIPv4Adapter
end Sponge
