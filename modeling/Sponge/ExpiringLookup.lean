import Mathlib.Algebra.Ring.Nat
import Mathlib.Data.Option.Basic
import Sponge.Runs

/-!
# Answers that expire and questions asked again

A lookup waits for the answer to one question. An answer is kept for a while; without one, whoever
wants it asks. The time of the first question since the last answer is remembered, and only that
one: once it is long enough ago, everybody asks again.

A machine is observed through a lookup if each of its operations acts on the lookup as one event.
Both results are about all runs of such a machine: a known answer is the latest one and recent, and
the questions are spaced exactly if nobody comes back too soon after a repeated one.
-/
namespace Sponge

structure Lookup (α : Type*) where
  known : Option (α × ℕ)
  asked : Option ℕ
  now : ℕ

namespace Lookup
variable {α : Type*}

inductive Event (α : Type*) where
  | idle
  | want
  | learn (answer : α)
  | pass (ms : ℕ)

/-- The time an event takes. -/
def Event.ms : Event α → ℕ
  | .pass ms => ms
  | .idle | .want | .learn _ => 0

def step (lifetime : ℕ) (q : Lookup α) : Event α → Lookup α
  | .idle => q
  | .want => if q.known.isSome then q else { q with asked := some (q.asked.getD q.now) }
  | .learn answer => { q with known := some (answer, q.now), asked := none }
  | .pass ms => { q with
      known := q.known.filter fun entry => !decide (entry.2 + lifetime < q.now + ms)
      now := q.now + ms }

/-- Wanting the answer now means asking for it. -/
def Asks (interval : ℕ) (q : Lookup α) : Prop :=
  q.known = none ∧ ∀ since, q.asked = some since → since + interval < q.now

theorem step_now (lifetime : ℕ) (q : Lookup α) (e : Event α) :
    (q.step lifetime e).now = q.now + e.ms := by
  cases e with
  | want =>
    simp only [step, Event.ms]
    split <;> rfl
  | _ => rfl

/-- Only an answer ends the waiting. -/
theorem step_waiting {lifetime since : ℕ} {q : Lookup α} {e : Event α} (hknown : q.known = none)
    (hasked : q.asked = some since) (he : ∀ answer, e ≠ .learn answer) :
    (q.step lifetime e).known = none ∧ (q.step lifetime e).asked = some since := by
  cases e with
  | idle => exact ⟨hknown, hasked⟩
  | want => simp [step, hknown, hasked]
  | learn answer => exact absurd rfl (he answer)
  | pass ms => simp [step, hknown, hasked]

end Lookup

namespace Machine
variable {σ ι : Type*} (M : Machine σ ι)

/-- An operation `b` performed when `B` holds, and no `R` since an operation `a` performed when `A`
held, comes more than `interval` after `a`. -/
def Spaced (A B R : σ → ι → Prop) (duration : ι → ℕ) (interval : ℕ) (s₀ : σ) (ops : List ι) :
    Prop :=
  ∀ early a mid b late, ops = early ++ a :: (mid ++ b :: late) →
    A (M.run s₀ early) a → B (M.run s₀ (early ++ a :: mid)) b →
    ¬ M.Occurs R (M.run s₀ (early ++ [a])) mid → interval < (mid.map duration).sum

/-- Operations that never satisfy `A` are spaced. -/
theorem spaced_of_never {A B R : σ → ι → Prop} {duration : ι → ℕ} {interval : ℕ} {s₀ : σ}
    (hA : ∀ past a, ¬ A (M.run s₀ past) a) (ops : List ι) :
    M.Spaced A B R duration interval s₀ ops :=
  fun early a _ _ _ _ ha => absurd ha (hA early a)

theorem spaced_congr {M : Machine σ ι} {A A' B B' R : σ → ι → Prop} {duration : ι → ℕ}
    {interval : ℕ} {s₀ : σ} {ops : List ι} (hops : M.Admits s₀ ops)
    (hA : ∀ past a, M.enabled (M.run s₀ past) a → (A (M.run s₀ past) a ↔ A' (M.run s₀ past) a))
    (hB : ∀ past a, M.enabled (M.run s₀ past) a → (B (M.run s₀ past) a ↔ B' (M.run s₀ past) a)) :
    M.Spaced A B R duration interval s₀ ops ↔ M.Spaced A' B' R duration interval s₀ ops := by
  refine forall_congr' fun early => forall_congr' fun a => forall_congr' fun mid =>
    forall_congr' fun b => forall_congr' fun late => forall_congr' fun hsplit => ?_
  rw [hsplit] at hops
  have ha := ((M.admits_append _ _ _).mp hops).2.1
  have hb : M.enabled (M.run s₀ (early ++ a :: mid)) b := by
    rw [← List.cons_append, ← List.append_assoc] at hops
    exact ((M.admits_append _ _ _).mp hops).2.1
  exact imp_congr (hA _ _ ha) (imp_congr (hB _ _ hb) Iff.rfl)

end Machine

/-- How a machine acts on a lookup. -/
structure Observation {σ ι : Type*} (M : Machine σ ι) (α : Type*) (lifetime : ℕ) where
  view : σ → Lookup α
  event : σ → ι → Lookup.Event α
  duration : ι → ℕ
  view_step : ∀ s a, M.enabled s a → view (M.step s a) = (view s).step lifetime (event s a)
  event_ms : ∀ s a, (event s a).ms = duration a

namespace Observation
variable {σ ι α : Type*} {M : Machine σ ι} {lifetime interval : ℕ} (O : Observation M α lifetime)
  {s s₀ : σ} {a : ι} {ops : List ι}

def elapsed (ops : List ι) : ℕ := (ops.map O.duration).sum

def Learns (s : σ) (a : ι) : Prop := ∃ answer, O.event s a = .learn answer

def Wants (s : σ) (a : ι) : Prop := O.event s a = .want

def Asks (interval : ℕ) (s : σ) (a : ι) : Prop := O.Wants s a ∧ (O.view s).Asks interval

def AsksAgain (interval : ℕ) (s : σ) (a : ι) : Prop :=
  O.Asks interval s a ∧ (O.view s).asked ≠ none

/-- The latest answer of the run is `answer`, learned at the time `since`. -/
def Latest (s₀ : σ) (ops : List ι) (answer : α) (since : ℕ) : Prop :=
  ∃ early a late, ops = early ++ a :: late ∧ O.event (M.run s₀ early) a = .learn answer ∧
    ¬ M.Occurs O.Learns (M.run s₀ (early ++ [a])) late ∧ (O.view (M.run s₀ early)).now = since

/-- The latest answer of the run is `answer`, and it came at most `lifetime` before the end. -/
def Recent (s₀ : σ) (ops : List ι) (answer : α) : Prop :=
  ∃ early a late, ops = early ++ a :: late ∧ O.event (M.run s₀ early) a = .learn answer ∧
    ¬ M.Occurs O.Learns (M.run s₀ (early ++ [a])) late ∧ O.elapsed late ≤ lifetime

theorem now_step (ha : M.enabled s a) :
    (O.view (M.step s a)).now = (O.view s).now + O.duration a := by
  rw [O.view_step s a ha, Lookup.step_now, O.event_ms]

theorem now_run (hops : M.Admits s ops) :
    (O.view (M.run s ops)).now = (O.view s).now + O.elapsed ops := by
  refine M.run_induction (P := fun ops => (O.view (M.run s ops)).now =
    (O.view s).now + O.elapsed ops) rfl ?_ hops
  intro past a _ ha ih
  rw [M.run_snoc, O.now_step ha, ih]
  simp [elapsed, Nat.add_assoc]

section Latest
variable {O} {answer : α} {since : ℕ}

theorem latest_self (h : O.event (M.run s₀ ops) a = .learn answer) :
    O.Latest s₀ (ops ++ [a]) answer (O.view (M.run s₀ ops)).now :=
  ⟨ops, a, [], rfl, h, id, rfl⟩

theorem Latest.snoc (h : O.Latest s₀ ops answer since) (ha : ¬ O.Learns (M.run s₀ ops) a) :
    O.Latest s₀ (ops ++ [a]) answer since := by
  obtain ⟨early, b, late, rfl, hlearn, hlast, hsince⟩ := h
  refine ⟨early, b, late ++ [a], by simp, hlearn, ?_, hsince⟩
  rw [M.occurs_snoc, ← M.run_append, List.append_assoc, List.singleton_append]
  exact not_or.mpr ⟨hlast, ha⟩

theorem Latest.recent (h : O.Latest s₀ ops answer since) (hops : M.Admits s₀ ops)
    (hnow : (O.view (M.run s₀ ops)).now ≤ since + lifetime) : O.Recent s₀ ops answer := by
  obtain ⟨early, a, late, rfl, hlearn, hlast, rfl⟩ := h
  have hadmits := ((M.admits_append _ _ _).mp hops).2
  have hms := O.event_ms (M.run s₀ early) a
  rw [hlearn] at hms
  rw [M.run_append, O.now_run hadmits, elapsed, List.map_cons, List.sum_cons, ← hms] at hnow
  exact ⟨early, a, late, rfl, hlearn, hlast, by simpa [elapsed, Lookup.Event.ms] using hnow⟩

end Latest

/-- What is known was learned at the time noted with it, last of all, and has not expired. -/
theorem known_run (hinit : (O.view s₀).known = none) (hops : M.Admits s₀ ops) :
    ∀ answer since, (O.view (M.run s₀ ops)).known = some (answer, since) →
      O.Latest s₀ ops answer since ∧ (O.view (M.run s₀ ops)).now ≤ since + lifetime := by
  refine M.run_induction (P := fun ops => ∀ answer since,
    (O.view (M.run s₀ ops)).known = some (answer, since) →
      O.Latest s₀ ops answer since ∧ (O.view (M.run s₀ ops)).now ≤ since + lifetime) ?_ ?_ hops
  · intro answer since hknown
    rw [M.run_nil, hinit] at hknown
    cases hknown
  intro past a _ ha ih answer since hknown
  rw [M.run_snoc, O.view_step _ a ha] at hknown ⊢
  cases hevent : O.event (M.run s₀ past) a with
  | idle =>
    rw [hevent] at hknown
    obtain ⟨hlatest, hnow⟩ := ih answer since hknown
    exact ⟨hlatest.snoc (by simp [Learns, hevent]), hnow⟩
  | want =>
    have hsame : ((O.view (M.run s₀ past)).step lifetime .want).known =
        (O.view (M.run s₀ past)).known := by
      simp only [Lookup.step]
      split <;> rfl
    rw [hevent, hsame] at hknown
    obtain ⟨hlatest, hnow⟩ := ih answer since hknown
    rw [Lookup.step_now]
    exact ⟨hlatest.snoc (by simp [Learns, hevent]), hnow⟩
  | learn b =>
    rw [hevent] at hknown
    cases hknown
    exact ⟨latest_self hevent, Nat.le_add_right _ _⟩
  | pass ms =>
    rw [hevent] at hknown
    obtain ⟨hbefore, hfresh⟩ := Option.filter_eq_some_iff.mp hknown
    obtain ⟨hlatest, -⟩ := ih answer since hbefore
    refine ⟨hlatest.snoc (by simp [Learns, hevent]), ?_⟩
    simpa [Lookup.step] using hfresh

theorem recent_of_known (hinit : (O.view s₀).known = none) (hops : M.Admits s₀ ops) {answer : α}
    {since : ℕ} (hknown : (O.view (M.run s₀ ops)).known = some (answer, since)) :
    O.Recent s₀ ops answer := by
  obtain ⟨hlatest, hnow⟩ := O.known_run hinit hops answer since hknown
  exact hlatest.recent hops hnow

/-- While no answer comes, the time of the first question stays. -/
theorem waiting_run {since : ℕ} (hops : M.Admits s ops) (hknown : (O.view s).known = none)
    (hasked : (O.view s).asked = some since) (hnone : ¬ M.Occurs O.Learns s ops) :
    (O.view (M.run s ops)).known = none ∧ (O.view (M.run s ops)).asked = some since := by
  induction ops generalizing s with
  | nil => exact ⟨hknown, hasked⟩
  | cons a ops ih =>
    obtain ⟨hfirst, hrest⟩ := not_or.mp hnone
    have hstep : (O.view (M.step s a)).known = none ∧ (O.view (M.step s a)).asked = some since := by
      rw [O.view_step s a hops.1]
      exact Lookup.step_waiting hknown hasked fun answer h => hfirst ⟨answer, h⟩
    exact ih hops.2 hstep.1 hstep.2 hrest

section Spaced
variable {early mid late : List ι} {b : ι}

/-- Whoever wants the answer after a question, with none in between, finds the first of the
questions noted. -/
theorem waiting_after (hops : M.Admits s₀ (early ++ a :: (mid ++ b :: late)))
    (hask : O.Asks interval (M.run s₀ early) a)
    (hnone : ¬ M.Occurs O.Learns (M.run s₀ (early ++ [a])) mid) :
    (O.view (M.run s₀ (early ++ a :: mid))).known = none ∧
      (O.view (M.run s₀ (early ++ a :: mid))).asked =
        some ((O.view (M.run s₀ early)).asked.getD (O.view (M.run s₀ early)).now) ∧
      (O.view (M.run s₀ (early ++ a :: mid))).now =
        (O.view (M.run s₀ early)).now + O.elapsed mid := by
  obtain ⟨hwant, hknown, -⟩ := hask
  obtain ⟨-, ha, hrest⟩ := (M.admits_append _ _ _).mp hops
  obtain ⟨hmid, -⟩ := (M.admits_append _ _ _).mp hrest
  have hview : O.view (M.step (M.run s₀ early) a) = { O.view (M.run s₀ early) with
      asked := some ((O.view (M.run s₀ early)).asked.getD (O.view (M.run s₀ early)).now) } := by
    rw [O.view_step _ a ha, hwant]
    simp [Lookup.step, hknown]
  rw [M.run_snoc] at hnone
  rw [M.run_append, M.run_cons, O.now_run hmid, hview]
  obtain ⟨hstill, hnoted⟩ := O.waiting_run hmid (by rw [hview]; exact hknown) (by rw [hview]) hnone
  exact ⟨hstill, hnoted, rfl⟩

/-- Questions are spaced exactly if nobody wants the answer too soon after a repeated question:
that one is not noted. -/
theorem spaced_iff (hops : M.Admits s₀ ops) :
    M.Spaced (O.Asks interval) (O.Asks interval) O.Learns O.duration interval s₀ ops ↔
      M.Spaced (O.AsksAgain interval) O.Wants O.Learns O.duration interval s₀ ops := by
  constructor
  · intro h early a mid b late hsplit ha hb hnone
    have hadmits := hops
    rw [hsplit] at hadmits
    obtain ⟨hknown, hasked, hnow⟩ := O.waiting_after hadmits ha.1 hnone
    refine h early a mid b late hsplit ha.1 ⟨hb, hknown, ?_⟩ hnone
    intro since hsince
    obtain ⟨first, hfirst⟩ := Option.ne_none_iff_exists'.mp ha.2
    have hlong := ha.1.2.2 first hfirst
    rw [hasked, hfirst, Option.getD_some, Option.some.injEq] at hsince
    omega
  · intro h early a mid b late hsplit ha hb hnone
    by_cases hagain : (O.view (M.run s₀ early)).asked = none
    · have hadmits := hops
      rw [hsplit] at hadmits
      obtain ⟨-, hasked, hnow⟩ := O.waiting_after hadmits ha hnone
      rw [hagain, Option.getD_none] at hasked
      have hlong := hb.2.2 _ hasked
      rw [hnow] at hlong
      exact Nat.lt_of_add_lt_add_left hlong
    · exact h early a mid b late hsplit ⟨ha, hagain⟩ hb.1 hnone

end Spaced
end Observation
end Sponge
