import Mathlib.Data.List.Forall2
import Sponge.FileDescriptor

/-!
# The event loop

A rule watches a descriptor in one direction. A call of `wait_next_event` drops the rules whose
descriptor is used up, polls the descriptors of the others and calls back those that are ready.
The callbacks work on a common state; what the system calls in them return is an argument, as is
what `poll` reports.

`LiveKeeps` is the rule for what such a call preserves: a callback may count on what its rule was
interested in, as long as the other rules leave that alone. What is preserved may speak of the rules
that are left; `Keeps` is the case where it does not. `LiveSafe` and `Safe` add that nothing is
thrown, and `Winds` that a loop that is served comes to its end.
-/
namespace Sponge

inductive Direction where
  | In
  | Out
  deriving DecidableEq

/-- A rule over the state `σ`, with descriptors named by `φ`; `ε` is what the system calls of the
callback return. -/
structure Rule (σ φ ε : Type) where
  fd : φ
  direction : Direction
  callback : ε → σ → Except String σ
  interest : σ → Bool := fun _ => true
  cancel : σ → Except String σ := .ok

/-- The flags `poll` sets for a descriptor. -/
structure Revents where
  pollin : Bool := false
  pollout : Bool := false
  pollerr : Bool := false
  pollhup : Bool := false
  pollnval : Bool := false

structure Pollfd (φ : Type) where
  fd : φ
  events : Option Direction

/-- `revents & events`. -/
def Pollfd.ready {φ : Type} (p : Pollfd φ) (revents : Revents) : Bool :=
  match p.events with
  | none => false
  | some .In => revents.pollin
  | some .Out => revents.pollout

/-- A descriptor that is ready both ways is ready for whatever is polled. -/
theorem Pollfd.ready_eq_isSome {φ : Type} (p : Pollfd φ) {revents : Revents}
    (hin : revents.pollin = true) (hout : revents.pollout = true) :
    p.ready revents = p.events.isSome := by
  rcases p with ⟨fd, _ | _ | _⟩
  · rfl
  · exact hin
  · exact hout

/-- What a call of `poll` comes to: nothing happened in time, it failed (by a signal or otherwise),
or it reports on the descriptors by their position. -/
inductive Poll (ρ ε : Type) where
  | timeout
  | failed (interrupted : Bool)
  | ready (revents : ℕ → Revents) (answer : ρ → ε)

/-- What the system calls return is of the kind `A`. -/
def Poll.Answers {ρ ε : Type} (A : ρ → ε → Prop) : Poll ρ ε → Prop
  | .ready _ answer => ∀ r, A r (answer r)
  | _ => True

theorem Poll.answers_true {ρ ε : Type} (poll : Poll ρ ε) : poll.Answers fun _ _ => True := by
  cases poll with
  | ready revents answer => exact fun _ => trivial
  | _ => trivial

/-- No descriptor is reported as broken. -/
def Poll.Sound {ρ ε : Type} : Poll ρ ε → Prop
  | .ready revents _ => ∀ i, (revents i).pollerr = false ∧ (revents i).pollnval = false
  | _ => True

/-- A hangup is reported only if `H` holds. -/
def Poll.HangsOnly {ρ ε : Type} (H : Prop) : Poll ρ ε → Prop
  | .ready revents _ => ∀ i, (revents i).pollhup = true → H
  | _ => True

theorem Poll.hangsOnly_true {ρ ε : Type} (poll : Poll ρ ε) : poll.HangsOnly True := by
  cases poll with
  | ready revents answer => exact fun _ _ => trivial
  | _ => trivial

/-- Every descriptor is ready. -/
def Poll.Serves {ρ ε : Type} : Poll ρ ε → Prop
  | .ready revents _ => ∀ i, (revents i).pollin = true ∧ (revents i).pollout = true
  | _ => False

/-- The rules of a loop, named by `ρ`; the list of those not cancelled is kept beside it. -/
structure EventLoop (ρ σ φ ε : Type) where
  descriptor : σ → φ → FDWrapper
  rule : ρ → Rule σ φ ε

namespace EventLoop

inductive Result where
  | success
  | timeout
  | exit
  deriving DecidableEq

variable {ρ σ φ ε : Type} (L : EventLoop ρ σ φ ε)

def serviceCount (r : ρ) (s : σ) : ℕ :=
  let w := L.descriptor s (L.rule r).fd
  if (L.rule r).direction = .In then w.readCount else w.writeCount

/-- The first loop of `wait_next_event`: the rules that stay, and what is polled for them. -/
def setUp : List ρ → σ → Except String (List ρ × List (Pollfd φ) × σ)
  | [], s => .ok ([], [], s)
  | r :: rules, s =>
    let w := L.descriptor s (L.rule r).fd
    if (L.rule r).direction = .In ∧ w.eof = true then
      (L.rule r).cancel s >>= setUp rules
    else if w.closed = true then
      (L.rule r).cancel s >>= setUp rules
    else do
      let events := if (L.rule r).interest s then some (L.rule r).direction else none
      let (kept, pollfds, s) ← setUp rules s
      return (r :: kept, ⟨(L.rule r).fd, events⟩ :: pollfds, s)

/-- A callback that neither uses its descriptor nor loses interest would be called for ever. -/
def service (r : ρ) (answer : ε) (s : σ) : Except String σ := do
  let s' ← (L.rule r).callback answer s
  if L.serviceCount r s = L.serviceCount r s' ∧ (L.rule r).interest s' = true then
    .error "EventLoop: busy wait detected: callback did not read/write fd and is still interested"
  else return s'

/-- A rule is called back if its descriptor is ready for it. -/
def serve (r : ρ) (p : Pollfd φ) (revents : Revents) (answer : ε) (s : σ) : Except String σ :=
  if p.ready revents then L.service r answer s else .ok s

/-- The second loop of `wait_next_event`. The position `idx` moves on with every rule, also with one
that is erased. -/
def dispatch (pollfds : List (Pollfd φ)) (revents : ℕ → Revents) (answer : ρ → ε) :
    List ρ → ℕ → σ → Except String (List ρ × σ)
  | [], _, s => .ok ([], s)
  | r :: rules, idx, s =>
    match pollfds[idx]? with
    | none => .error "no such pollfd"
    | some p =>
      if (revents idx).pollerr || (revents idx).pollnval then
        .error "EventLoop: error on polled file descriptor"
      else if (revents idx).pollhup && p.events.isSome && !p.ready (revents idx) then
        (L.rule r).cancel s >>= dispatch pollfds revents answer rules (idx + 1)
      else do
        let s ← L.serve r p (revents idx) (answer r) s
        let (kept, s) ← dispatch pollfds revents answer rules (idx + 1) s
        return (r :: kept, s)

/-- An error of `poll` other than a signal is swallowed: no descriptor is reported then. -/
def waitNextEvent (rules : List ρ) (s : σ) (poll : Poll ρ ε) :
    Except String (Result × List ρ × σ) := do
  let (kept, pollfds, s) ← L.setUp rules s
  if pollfds.all (fun p => p.events.isNone) then return (.exit, kept, s)
  match poll with
  | .timeout => return (.timeout, kept, s)
  | .failed true => return (.exit, kept, s)
  | .failed false => return (.success, kept, s)
  | .ready revents answer =>
    let (kept, s) ← L.dispatch pollfds revents answer kept 0 s
    return (.success, kept, s)

/-- The descriptor of a rule is used up: read to its end by a rule that reads, or closed. -/
def UsedUp (r : ρ) (s : σ) : Prop :=
  (L.rule r).direction = .In ∧ (L.descriptor s (L.rule r).fd).eof = true ∨
    (L.descriptor s (L.rule r).fd).closed = true

section LiveKeeps
variable {L} {A : ρ → ε → Prop} {H : Prop} {I : (ρ → Prop) → σ → Prop} {C : ρ → σ → Prop}
  {P : ρ → Prop}

/-- The callbacks and cancellations keep `I`, which is about the rules that are left and the state.
Interest in a descriptor gives the condition `C` of the rule, which the other rules keep and on
which its callback relies. A rule is cancelled when its descriptor is used up or, while its condition
holds, by a hangup; without hangups, `H` may be false. -/
structure LiveKeeps (L : EventLoop ρ σ φ ε) (A : ρ → ε → Prop) (H : Prop)
    (I : (ρ → Prop) → σ → Prop) (C : ρ → σ → Prop) : Prop where
  interested : ∀ P r s, I P s → P r → ¬ L.UsedUp r s → (L.rule r).interest s = true → C r s
  cancel : ∀ P r s s', I P s → P r → L.UsedUp r s ∨ H ∧ C r s → (L.rule r).cancel s = .ok s' →
    I (fun q => P q ∧ q ≠ r) s' ∧ ∀ q, q ≠ r → C q s → C q s'
  callback : ∀ P r a s s', A r a → I P s → P r → C r s → (L.rule r).callback a s = .ok s' →
    I P s' ∧ ∀ q, q ≠ r → C q s → C q s'

/-- What is polled for a rule: its descriptor, in its direction, and then its condition holds. -/
def Polled (L : EventLoop ρ σ φ ε) (C : ρ → σ → Prop) (s : σ) (r : ρ) (p : Pollfd φ) : Prop :=
  p.fd = (L.rule r).fd ∧
    ∀ direction, p.events = some direction → direction = (L.rule r).direction ∧ C r s

/-- The rules that are left when those of `rules` that are not in `kept` are gone. -/
def Left (P : ρ → Prop) (rules kept : List ρ) (q : ρ) : Prop := P q ∧ (q ∈ rules → q ∈ kept)

theorem left_nil : Left P [] [] = P := by
  funext q
  simp [Left]

theorem left_cons {r : ρ} {rules kept : List ρ} (hr : r ∉ rules) :
    Left P (r :: rules) (r :: kept) = Left P rules kept := by
  funext q
  by_cases hq : q = r
  · subst hq
    simp [Left, hr]
  · simp [Left, hq]

theorem left_drop {r : ρ} {rules kept : List ρ} (hr : r ∉ rules) (hsub : kept.Sublist rules) :
    Left P (r :: rules) kept = Left (fun q => P q ∧ q ≠ r) rules kept := by
  funext q
  by_cases hq : q = r
  · subst hq
    have hgone : q ∉ kept := fun hmem => hr (hsub.subset hmem)
    simp [Left, hgone]
  · simp [Left, hq]

theorem left_self (rules kept : List ρ) (hsub : kept.Sublist rules) :
    Left (· ∈ rules) rules kept = (· ∈ kept) := by
  funext q
  have hmem : q ∈ kept → q ∈ rules := fun hq => hsub.subset hq
  simp only [Left, eq_iff_iff]
  tauto

theorem setUp_live (h : L.LiveKeeps A H I C) {rules kept : List ρ} {pollfds : List (Pollfd φ)}
    {s s' : σ} (hrules : rules.Nodup) (hP : ∀ r ∈ rules, P r) (hs : I P s)
    (hset : L.setUp rules s = .ok (kept, pollfds, s')) :
    I (Left P rules kept) s' ∧ (∀ q, q ∉ rules → C q s → C q s') ∧ kept.Sublist rules ∧
      List.Forall₂ (L.Polled C s') kept pollfds := by
  induction rules generalizing s kept pollfds P with
  | nil =>
    cases hset
    exact ⟨left_nil.symm ▸ hs, fun _ _ hq => hq, List.Sublist.refl _, .nil⟩
  | cons r rules ih =>
    obtain ⟨hr, hrest⟩ := List.nodup_cons.mp hrules
    obtain ⟨hPr, hPrest⟩ := List.forall_mem_cons.mp hP
    -- both reasons to cancel a rule do the same
    have hcancel : L.UsedUp r s →
        (L.rule r).cancel s >>= L.setUp rules = .ok (kept, pollfds, s') →
        I (Left P (r :: rules) kept) s' ∧ (∀ q, q ∉ r :: rules → C q s → C q s') ∧
          kept.Sublist (r :: rules) ∧ List.Forall₂ (L.Polled C s') kept pollfds := by
      intro hused hbind
      obtain ⟨s₁, hone, hbind⟩ := bind_eq_ok hbind
      obtain ⟨hI, hC⟩ := h.cancel P r s s₁ hs hPr (Or.inl hused) hone
      have hothers : ∀ q ∈ rules, P q ∧ q ≠ r :=
        fun q hq => ⟨hPrest q hq, fun heq => hr (heq ▸ hq)⟩
      obtain ⟨hI', hC', hsub, hall⟩ := ih hrest hothers hI hbind
      refine ⟨left_drop hr hsub ▸ hI', fun q hq hCq => ?_, hsub.cons r, hall⟩
      obtain ⟨hne, hq⟩ := List.ne_and_not_mem_of_not_mem_cons hq
      exact hC' q hq (hC q hne hCq)
    rw [setUp] at hset
    split at hset
    · next heof => exact hcancel (Or.inl heof) hset
    · next heof =>
      split at hset
      · next hclosed => exact hcancel (Or.inr hclosed) hset
      · next hclosed =>
        obtain ⟨⟨kept', pollfds', s₁⟩, hrec, hret⟩ := bind_eq_ok hset
        cases hret
        obtain ⟨hI', hC', hsub, hall⟩ := ih hrest hPrest hs hrec
        refine ⟨left_cons hr ▸ hI', fun q hq => hC' q (List.not_mem_of_not_mem_cons hq),
          hsub.cons_cons r, .cons ⟨rfl, fun direction hevents => ?_⟩ hall⟩
        dsimp only at hevents
        split at hevents
        · next hinterest =>
          cases hevents
          exact ⟨rfl, hC' r hr (h.interested P r s hs hPr (not_or.mpr ⟨heof, hclosed⟩) hinterest)⟩
        · cases hevents

theorem ready_isSome {p : Pollfd φ} {revents : Revents} (h : p.ready revents = true) :
    p.events.isSome = true := by
  rw [Pollfd.ready] at h
  cases hevents : p.events with
  | none =>
    rw [hevents] at h
    cases h
  | some direction => rfl

theorem callback_of_service {r : ρ} {a : ε} {s s' : σ} (h : L.service r a s = .ok s') :
    (L.rule r).callback a s = .ok s' := by
  obtain ⟨s₁, hcallback, hret⟩ := bind_eq_ok h
  split at hret
  · cases hret
  · cases hret
    exact hcallback

theorem Polled.of_isSome {s : σ} {r : ρ} {p : Pollfd φ} (h : L.Polled C s r p)
    (hsome : p.events.isSome = true) : C r s := by
  obtain ⟨direction, hevents⟩ := Option.isSome_iff_exists.mp hsome
  exact (h.2 direction hevents).2

theorem Polled.mono {s s' : σ} {r : ρ} {p : Pollfd φ} (h : L.Polled C s r p)
    (hC : C r s → C r s') : L.Polled C s' r p :=
  ⟨h.1, fun direction hevents => (h.2 direction hevents).imp_right hC⟩

theorem polled_mono {s s' : σ} {r : ρ} {rules : List ρ} {pollfds : List (Pollfd φ)}
    (h : List.Forall₂ (L.Polled C s) rules pollfds) (hr : r ∉ rules)
    (hC : ∀ q, q ≠ r → C q s → C q s') : List.Forall₂ (L.Polled C s') rules pollfds := by
  induction h with
  | nil => exact .nil
  | @cons q p rules pollfds hp _ ih =>
    obtain ⟨hne, hr⟩ := List.ne_and_not_mem_of_not_mem_cons hr
    exact .cons (hp.mono (hC q (Ne.symm hne))) (ih hr)

theorem serve_live (h : L.LiveKeeps A H I C) {r : ρ} {a : ε} {p : Pollfd φ} {revents : Revents}
    {s s' : σ} (ha : A r a) (hr : P r) (hs : I P s) (hp : L.Polled C s r p)
    (hserve : L.serve r p revents a s = .ok s') : I P s' ∧ ∀ q, q ≠ r → C q s → C q s' := by
  rw [serve] at hserve
  split at hserve
  · next hready =>
    have hcond : C r s := hp.of_isSome (ready_isSome hready)
    exact h.callback P r a s s' ha hs hr hcond (callback_of_service hserve)
  · cases hserve
    exact ⟨hs, fun _ _ hq => hq⟩

/-- The pollfd at the present position belongs to the first of the rules that are left. -/
theorem polled_cons {pollfds : List (Pollfd φ)} {idx : ℕ} {r : ρ} {rules : List ρ} {s : σ}
    (h : List.Forall₂ (L.Polled C s) (r :: rules) (pollfds.drop idx)) :
    ∃ p, pollfds[idx]? = some p ∧ L.Polled C s r p ∧
      List.Forall₂ (L.Polled C s) rules (pollfds.drop (idx + 1)) := by
  cases hdrop : pollfds.drop idx with
  | nil =>
    rw [hdrop] at h
    cases h
  | cons p tail =>
    rw [hdrop] at h
    obtain ⟨hp, htail⟩ := List.forall₂_cons.mp h
    refine ⟨p, ?_, hp, ?_⟩
    · rw [← List.head?_drop, hdrop]
      rfl
    · rw [← List.tail_drop, hdrop]
      exact htail

theorem dispatch_live (h : L.LiveKeeps A H I C) {pollfds : List (Pollfd φ)}
    {revents : ℕ → Revents} {answer : ρ → ε} (hanswer : ∀ r, A r (answer r))
    (hhangs : ∀ i, (revents i).pollhup = true → H) {rules kept : List ρ} {idx : ℕ} {s s' : σ}
    (hrules : rules.Nodup) (hP : ∀ r ∈ rules, P r) (hs : I P s)
    (hall : List.Forall₂ (L.Polled C s) rules (pollfds.drop idx))
    (hdispatch : L.dispatch pollfds revents answer rules idx s = .ok (kept, s')) :
    I (Left P rules kept) s' ∧ kept.Sublist rules := by
  induction rules generalizing s idx kept P with
  | nil =>
    cases hdispatch
    exact ⟨left_nil.symm ▸ hs, List.Sublist.refl _⟩
  | cons r rules ih =>
    obtain ⟨hr, hrest⟩ := List.nodup_cons.mp hrules
    obtain ⟨hPr, hPrest⟩ := List.forall_mem_cons.mp hP
    obtain ⟨p, hget, hp, hall⟩ := polled_cons hall
    rw [dispatch, hget] at hdispatch
    dsimp only at hdispatch
    split at hdispatch
    · cases hdispatch
    · split at hdispatch
      · next hhup =>
        simp only [Bool.and_eq_true] at hhup
        obtain ⟨s₁, hcancel, hdispatch⟩ := bind_eq_ok hdispatch
        have hcond : C r s := hp.of_isSome hhup.1.2
        obtain ⟨hI, hC⟩ := h.cancel P r s s₁ hs hPr (Or.inr ⟨hhangs idx hhup.1.1, hcond⟩) hcancel
        have hothers : ∀ q ∈ rules, P q ∧ q ≠ r :=
          fun q hq => ⟨hPrest q hq, fun heq => hr (heq ▸ hq)⟩
        obtain ⟨hI', hsub⟩ := ih hrest hothers hI (polled_mono hall hr hC) hdispatch
        exact ⟨left_drop hr hsub ▸ hI', hsub.cons r⟩
      · obtain ⟨s₁, hserve, hdispatch⟩ := bind_eq_ok hdispatch
        obtain ⟨⟨kept', s₂⟩, hrec, hret⟩ := bind_eq_ok hdispatch
        cases hret
        obtain ⟨hI, hC⟩ := serve_live h (hanswer r) hPr hs hp hserve
        obtain ⟨hI', hsub⟩ := ih hrest hPrest hI (polled_mono hall hr hC) hrec
        exact ⟨left_cons hr ▸ hI', hsub.cons_cons r⟩

/-- What the rules keep is kept by a call of `wait_next_event`. -/
theorem waitNextEvent_live (h : L.LiveKeeps A H I C) {poll : Poll ρ ε} (hpoll : poll.Answers A)
    (hhangs : poll.HangsOnly H) {rules kept : List ρ} {s s' : σ} {result : Result}
    (hrules : rules.Nodup) (hs : I (· ∈ rules) s)
    (hwait : L.waitNextEvent rules s poll = .ok (result, kept, s')) :
    I (· ∈ kept) s' ∧ kept.Sublist rules := by
  obtain ⟨⟨kept₁, pollfds, s₁⟩, hset, hwait⟩ := bind_eq_ok hwait
  obtain ⟨hI, -, hsub, hall⟩ := setUp_live h hrules (fun _ hr => hr) hs hset
  rw [left_self rules kept₁ hsub] at hI
  dsimp only at hwait
  split at hwait
  · cases hwait
    exact ⟨hI, hsub⟩
  · cases poll with
    | timeout =>
      cases hwait
      exact ⟨hI, hsub⟩
    | failed interrupted =>
      cases interrupted <;> cases hwait <;> exact ⟨hI, hsub⟩
    | ready revents answer =>
      obtain ⟨⟨kept₂, s₂⟩, hdispatch, hret⟩ := bind_eq_ok hwait
      cases hret
      rw [← pollfds.drop_zero] at hall
      obtain ⟨hI', hsub'⟩ := dispatch_live h hpoll hhangs (hsub.nodup hrules) (fun _ hr => hr) hI
        hall hdispatch
      rw [left_self kept₁ kept₂ hsub'] at hI'
      exact ⟨hI', hsub'.trans hsub⟩

end LiveKeeps

section LiveSafe
variable {L} {A : ρ → ε → Prop} {H : Prop} {I : (ρ → Prop) → σ → Prop} {C : ρ → σ → Prop}
  {E : String → Prop} {P : ρ → Prop}

/-- Beyond that, the callbacks throw nothing but what `E` allows, and each one uses its descriptor
or loses interest. -/
structure LiveSafe (L : EventLoop ρ σ φ ε) (A : ρ → ε → Prop) (H : Prop)
    (I : (ρ → Prop) → σ → Prop) (C : ρ → σ → Prop) (E : String → Prop) : Prop
    extends L.LiveKeeps A H I C where
  cancel_throws : ∀ P r s, I P s → ThrowsOnly E ((L.rule r).cancel s)
  callback_throws : ∀ P r a s, A r a → I P s → P r → C r s →
    ThrowsOnly E ((L.rule r).callback a s)
  callback_serves : ∀ P r a s s', A r a → I P s → P r → C r s →
    (L.rule r).callback a s = .ok s' → L.serviceCount r s = L.serviceCount r s' →
    (L.rule r).interest s' = false

theorem setUp_throws (h : L.LiveSafe A H I C E) {rules : List ρ} (hrules : rules.Nodup)
    (hP : ∀ r ∈ rules, P r) {s : σ} (hs : I P s) : ThrowsOnly E (L.setUp rules s) := by
  induction rules generalizing s P with
  | nil => exact .of_ok rfl
  | cons r rules ih =>
    obtain ⟨hr, hrest⟩ := List.nodup_cons.mp hrules
    obtain ⟨hPr, hPrest⟩ := List.forall_mem_cons.mp hP
    have hcancel : L.UsedUp r s → ThrowsOnly E ((L.rule r).cancel s >>= L.setUp rules) := by
      intro hused
      refine (h.cancel_throws P r s hs).bind fun s₁ hone => ih hrest ?_
        (h.cancel P r s s₁ hs hPr (Or.inl hused) hone).1
      exact fun q hq => ⟨hPrest q hq, fun heq => hr (heq ▸ hq)⟩
    rw [setUp]
    dsimp only
    split
    · next heof => exact hcancel (Or.inl heof)
    · split
      · next hclosed => exact hcancel (Or.inr hclosed)
      · exact (ih hrest hPrest hs).bind fun _ _ => .of_ok rfl

theorem service_throws (h : L.LiveSafe A H I C E) {r : ρ} {a : ε} {s : σ} (ha : A r a) (hr : P r)
    (hs : I P s) (hC : C r s) : ThrowsOnly E (L.service r a s) := by
  refine (h.callback_throws P r a s ha hs hr hC).bind fun s' hcallback => ?_
  split
  · next hbusy =>
    have hidle := h.callback_serves P r a s s' ha hs hr hC hcallback hbusy.1
    rw [hbusy.2] at hidle
    cases hidle
  · exact .of_ok rfl

theorem serve_throws (h : L.LiveSafe A H I C E) (revents : Revents) {r : ρ} {a : ε} {p : Pollfd φ}
    {s : σ} (ha : A r a) (hr : P r) (hs : I P s) (hp : L.Polled C s r p) :
    ThrowsOnly E (L.serve r p revents a s) := by
  rw [serve]
  split
  · next hready => exact service_throws h ha hr hs (hp.of_isSome (ready_isSome hready))
  · exact .of_ok rfl

theorem dispatch_throws (h : L.LiveSafe A H I C E) {pollfds : List (Pollfd φ)}
    {revents : ℕ → Revents} {answer : ρ → ε} (hanswer : ∀ r, A r (answer r))
    (hhangs : ∀ i, (revents i).pollhup = true → H)
    (hsound : ∀ i, (revents i).pollerr = false ∧ (revents i).pollnval = false) {rules : List ρ}
    {idx : ℕ} {s : σ} (hrules : rules.Nodup) (hP : ∀ r ∈ rules, P r) (hs : I P s)
    (hall : List.Forall₂ (L.Polled C s) rules (pollfds.drop idx)) :
    ThrowsOnly E (L.dispatch pollfds revents answer rules idx s) := by
  induction rules generalizing s idx P with
  | nil => exact .of_ok rfl
  | cons r rules ih =>
    obtain ⟨hr, hrest⟩ := List.nodup_cons.mp hrules
    obtain ⟨hPr, hPrest⟩ := List.forall_mem_cons.mp hP
    obtain ⟨p, hget, hp, hall⟩ := polled_cons hall
    rw [dispatch, hget]
    dsimp only
    rw [if_neg (by simp [hsound idx])]
    split
    · next hhup =>
      simp only [Bool.and_eq_true] at hhup
      refine (h.cancel_throws P r s hs).bind fun s₁ hone => ?_
      have hcond : C r s := hp.of_isSome hhup.1.2
      obtain ⟨hI, hC⟩ := h.cancel P r s s₁ hs hPr (Or.inr ⟨hhangs idx hhup.1.1, hcond⟩) hone
      refine ih hrest ?_ hI (polled_mono hall hr hC)
      exact fun q hq => ⟨hPrest q hq, fun heq => hr (heq ▸ hq)⟩
    · refine (serve_throws h (revents idx) (hanswer r) hPr hs hp).bind fun s₁ hserve => ?_
      obtain ⟨hI, hC⟩ := serve_live h.toLiveKeeps (hanswer r) hPr hs hp hserve
      exact (ih hrest hPrest hI (polled_mono hall hr hC)).bind fun _ _ => .of_ok rfl

/-- A call of `wait_next_event` throws nothing of its own, as long as `poll` reports no error on a
descriptor. -/
theorem waitNextEvent_throws_live (h : L.LiveSafe A H I C E) {poll : Poll ρ ε}
    (hpoll : poll.Answers A) (hhangs : poll.HangsOnly H) (hsound : poll.Sound) {rules : List ρ}
    {s : σ} (hrules : rules.Nodup) (hs : I (· ∈ rules) s) :
    ThrowsOnly E (L.waitNextEvent rules s poll) := by
  refine (setUp_throws h hrules (fun _ hr => hr) hs).bind fun r hset => ?_
  obtain ⟨kept, pollfds, s₁⟩ := r
  obtain ⟨hI, -, hsub, hall⟩ := setUp_live h.toLiveKeeps hrules (fun _ hr => hr) hs hset
  rw [left_self rules kept hsub] at hI
  dsimp only
  split
  · exact .of_ok rfl
  · cases poll with
    | timeout => exact .of_ok rfl
    | failed interrupted => cases interrupted <;> exact .of_ok rfl
    | ready revents answer =>
      rw [← pollfds.drop_zero] at hall
      exact (dispatch_throws h hpoll hhangs hsound (hsub.nodup hrules) (fun _ hr => hr) hI
        hall).bind fun _ _ => .of_ok rfl

end LiveSafe

section Keeps
variable {L} {A : ρ → ε → Prop} {I : σ → Prop} {C : ρ → σ → Prop} {E : String → Prop}

/-- The same for what does not depend on the rules that are left. -/
structure Keeps (L : EventLoop ρ σ φ ε) (A : ρ → ε → Prop) (I : σ → Prop) (C : ρ → σ → Prop) :
    Prop where
  interested : ∀ r s, I s → ¬ L.UsedUp r s → (L.rule r).interest s = true → C r s
  cancel : ∀ r s s', I s → (L.rule r).cancel s = .ok s' → I s' ∧ ∀ q, q ≠ r → C q s → C q s'
  callback : ∀ r a s s', A r a → I s → C r s → (L.rule r).callback a s = .ok s' →
    I s' ∧ ∀ q, q ≠ r → C q s → C q s'

structure Safe (L : EventLoop ρ σ φ ε) (A : ρ → ε → Prop) (I : σ → Prop) (C : ρ → σ → Prop)
    (E : String → Prop) : Prop extends L.Keeps A I C where
  cancel_throws : ∀ r s, I s → ThrowsOnly E ((L.rule r).cancel s)
  callback_throws : ∀ r a s, A r a → I s → C r s → ThrowsOnly E ((L.rule r).callback a s)
  callback_serves : ∀ r a s s', A r a → I s → C r s → (L.rule r).callback a s = .ok s' →
    L.serviceCount r s = L.serviceCount r s' → (L.rule r).interest s' = false

theorem Keeps.live (h : L.Keeps A I C) : L.LiveKeeps A True (fun _ => I) C where
  interested := fun _ r s hs _ => h.interested r s hs
  cancel := fun _ r s s' hs _ _ => h.cancel r s s' hs
  callback := fun _ r a s s' ha hs _ => h.callback r a s s' ha hs

theorem Safe.live (h : L.Safe A I C E) : L.LiveSafe A True (fun _ => I) C E where
  toLiveKeeps := h.toKeeps.live
  cancel_throws := fun _ => h.cancel_throws
  callback_throws := fun _ r a s ha hs _ => h.callback_throws r a s ha hs
  callback_serves := fun _ r a s s' ha hs _ => h.callback_serves r a s s' ha hs

theorem waitNextEvent_keeps (h : L.Keeps A I C) {poll : Poll ρ ε} (hpoll : poll.Answers A)
    {rules kept : List ρ} {s s' : σ} {result : Result} (hrules : rules.Nodup) (hs : I s)
    (hwait : L.waitNextEvent rules s poll = .ok (result, kept, s')) :
    I s' ∧ kept.Sublist rules :=
  waitNextEvent_live h.live hpoll poll.hangsOnly_true hrules hs hwait

theorem waitNextEvent_throws (h : L.Safe A I C E) {poll : Poll ρ ε} (hpoll : poll.Answers A)
    (hsound : poll.Sound) {rules : List ρ} {s : σ} (hrules : rules.Nodup) (hs : I s) :
    ThrowsOnly E (L.waitNextEvent rules s poll) :=
  waitNextEvent_throws_live h.live hpoll poll.hangsOnly_true hsound hrules hs

end Keeps

section Exit
variable {L} {J : σ → Prop} {rules kept : List ρ} {pollfds : List (Pollfd φ)} {s s' : σ}
  {R : ρ → ρ → Prop}

/-- `setUp` changes the state by cancellations only. -/
theorem setUp_cancels
    (hcancel : ∀ q ∈ rules, ∀ s s', J s → (L.rule q).cancel s = .ok s' → J s') (hs : J s)
    (hset : L.setUp rules s = .ok (kept, pollfds, s')) : J s' := by
  induction rules generalizing s kept pollfds with
  | nil =>
    cases hset
    exact hs
  | cons r rules ih =>
    obtain ⟨hfirst, hrest⟩ := List.forall_mem_cons.mp hcancel
    have hbound : (L.rule r).cancel s >>= L.setUp rules = .ok (kept, pollfds, s') → J s' := by
      intro hbind
      obtain ⟨s₁, hone, hbind⟩ := bind_eq_ok hbind
      exact ih hrest (hfirst s s₁ hs hone) hbind
    rw [setUp] at hset
    split at hset
    · exact hbound hset
    · split at hset
      · exact hbound hset
      · obtain ⟨⟨kept', pollfds', s₁⟩, hrec, hret⟩ := bind_eq_ok hset
        cases hret
        exact ih hrest hs hrec

/-- What a rule without interest stands for holds after `setUp`, if the rule stays and the
cancellations of the rules after it keep that. -/
theorem setUp_idle {r : ρ} (hidle : ∀ s, (L.rule r).interest s = false → J s)
    (hcancel : ∀ q, R r q → ∀ s s', J s → (L.rule q).cancel s = .ok s' → J s')
    (hrules : rules.Pairwise R) (hr : r ∈ kept)
    (hset : L.setUp rules s = .ok (kept, pollfds, s'))
    (hnone : ∀ p ∈ pollfds, p.events.isNone = true) : J s' := by
  induction rules generalizing s kept pollfds with
  | nil =>
    cases hset
    cases hr
  | cons q rules ih =>
    obtain ⟨hafter, hrules⟩ := List.pairwise_cons.mp hrules
    have hbound : (L.rule q).cancel s >>= L.setUp rules = .ok (kept, pollfds, s') → J s' := by
      intro hbind
      obtain ⟨s₁, -, hbind⟩ := bind_eq_ok hbind
      exact ih hrules hr hbind hnone
    rw [setUp] at hset
    split at hset
    · exact hbound hset
    · split at hset
      · exact hbound hset
      · obtain ⟨⟨kept', pollfds', s₁⟩, hrec, hret⟩ := bind_eq_ok hset
        cases hret
        obtain ⟨hfirst, hrest⟩ := List.forall_mem_cons.mp hnone
        rcases List.mem_cons.mp hr with rfl | hr
        · refine setUp_cancels (fun q hq => hcancel q (hafter q hq)) (hidle s ?_) hrec
          dsimp only at hfirst
          split at hfirst
          · cases hfirst
          · next hnot => exact Bool.not_eq_true _ ▸ hnot
        · exact ih hrules hr hrec hrest

/-- A call that is not interrupted exits only when no rule that is left is interested. -/
theorem waitNextEvent_exit {poll : Poll ρ ε} (hpoll : poll ≠ .failed true)
    (h : L.waitNextEvent rules s poll = .ok (.exit, kept, s')) :
    ∃ pollfds, L.setUp rules s = .ok (kept, pollfds, s') ∧
      ∀ p ∈ pollfds, p.events.isNone = true := by
  obtain ⟨⟨kept₁, pollfds, s₁⟩, hset, h⟩ := bind_eq_ok h
  dsimp only at h
  split at h
  · next hnone =>
    cases h
    exact ⟨pollfds, hset, List.all_eq_true.mp hnone⟩
  · cases poll with
    | timeout => cases h
    | failed interrupted =>
      cases interrupted with
      | true => exact absurd rfl hpoll
      | false => cases h
    | ready revents answer =>
      obtain ⟨⟨kept₂, s₂⟩, -, hret⟩ := bind_eq_ok h
      cases hret

end Exit

section Winds
variable {L} {A : ρ → ε → Prop} {I : σ → Prop} {C : ρ → σ → Prop} {V : σ → ℕ} {w : ℕ}

/-- Every callback lowers `V`, and a cancellation raises it by less than `w`. -/
structure Winds (L : EventLoop ρ σ φ ε) (A : ρ → ε → Prop) (I : σ → Prop) (C : ρ → σ → Prop)
    (V : σ → ℕ) (w : ℕ) : Prop extends L.Keeps A I C where
  cancel_lt : ∀ r s s', I s → (L.rule r).cancel s = .ok s' → V s' < V s + w
  callback_lt : ∀ r a s s', A r a → I s → C r s → (L.rule r).callback a s = .ok s' → V s' < V s

theorem setUp_winds (h : L.Winds A I C V w) {rules kept : List ρ} {pollfds : List (Pollfd φ)}
    {s s' : σ} (hs : I s) (hset : L.setUp rules s = .ok (kept, pollfds, s')) :
    kept = rules ∧ s' = s ∨ V s' + w * kept.length < V s + w * rules.length := by
  induction rules generalizing s kept pollfds with
  | nil =>
    cases hset
    exact Or.inl ⟨rfl, rfl⟩
  | cons r rules ih =>
    have hcancel : (L.rule r).cancel s >>= L.setUp rules = .ok (kept, pollfds, s') →
        V s' + w * kept.length < V s + w * (r :: rules).length := by
      intro hbind
      obtain ⟨s₁, hone, hbind⟩ := bind_eq_ok hbind
      have hlt := h.cancel_lt r s s₁ hs hone
      rw [List.length_cons, Nat.mul_succ]
      rcases ih (h.cancel r s s₁ hs hone).1 hbind with ⟨rfl, rfl⟩ | hless
      · omega
      · omega
    rw [setUp] at hset
    split at hset
    · exact Or.inr (hcancel hset)
    · split at hset
      · exact Or.inr (hcancel hset)
      · obtain ⟨⟨kept', pollfds', s₁⟩, hrec, hret⟩ := bind_eq_ok hset
        cases hret
        rcases ih hs hrec with ⟨rfl, rfl⟩ | hless
        · exact Or.inl ⟨rfl, rfl⟩
        · rw [List.length_cons, List.length_cons, Nat.mul_succ, Nat.mul_succ]
          omega

theorem serve_winds (h : L.Winds A I C V w) {r : ρ} {a : ε} {p : Pollfd φ} {revents : Revents}
    {s s' : σ} (hready : revents.pollin = true ∧ revents.pollout = true) (ha : A r a) (hs : I s)
    (hp : L.Polled C s r p) (hserve : L.serve r p revents a s = .ok s') :
    V s' ≤ V s ∧ (p.events.isSome = true → V s' < V s) := by
  rw [serve, p.ready_eq_isSome hready.1 hready.2] at hserve
  cases hevents : p.events with
  | none =>
    rw [hevents] at hserve
    cases hserve
    exact ⟨le_refl _, fun hsome => by cases hsome⟩
  | some direction =>
    rw [hevents, Option.isSome_some, if_pos rfl] at hserve
    have hlt := h.callback_lt r a s s' ha hs (hp.2 direction hevents).2
      (callback_of_service hserve)
    exact ⟨hlt.le, fun _ => hlt⟩

theorem dispatch_winds (h : L.Winds A I C V w) {pollfds : List (Pollfd φ)} {revents : ℕ → Revents}
    {answer : ρ → ε} (hanswer : ∀ r, A r (answer r))
    (hserves : (Poll.ready revents answer).Serves) {rules kept : List ρ} {idx : ℕ} {s s' : σ}
    (hrules : rules.Nodup) (hs : I s)
    (hall : List.Forall₂ (L.Polled C s) rules (pollfds.drop idx))
    (hdispatch : L.dispatch pollfds revents answer rules idx s = .ok (kept, s')) :
    V s' ≤ V s ∧ ((∃ p ∈ pollfds.drop idx, p.events.isSome = true) → V s' < V s) := by
  induction rules generalizing s idx kept with
  | nil =>
    cases hdispatch
    refine ⟨le_refl _, ?_⟩
    rintro ⟨p, hp, -⟩
    rw [List.forall₂_nil_left_iff.mp hall] at hp
    cases hp
  | cons r rules ih =>
    obtain ⟨hr, hrest⟩ := List.nodup_cons.mp hrules
    obtain ⟨p, hget, hp, htail⟩ := polled_cons hall
    obtain ⟨hin, hout⟩ := hserves idx
    rw [dispatch, hget] at hdispatch
    dsimp only at hdispatch
    split at hdispatch
    · cases hdispatch
    · -- a hangup cancels only what is not ready
      rw [p.ready_eq_isSome hin hout, Bool.and_assoc, Bool.and_not_self, Bool.and_false,
        if_neg Bool.false_ne_true] at hdispatch
      obtain ⟨s₁, hserve, hdispatch⟩ := bind_eq_ok hdispatch
      obtain ⟨⟨kept', s₂⟩, hrec, hret⟩ := bind_eq_ok hdispatch
      cases hret
      obtain ⟨hI, hC⟩ := serve_live (P := fun _ => True) h.live (hanswer r) trivial hs hp hserve
      obtain ⟨hle, hlt⟩ := serve_winds h ⟨hin, hout⟩ (hanswer r) hs hp hserve
      obtain ⟨hle', hlt'⟩ := ih hrest hI (polled_mono htail hr hC) hrec
      refine ⟨hle'.trans hle, ?_⟩
      rintro ⟨q, hq, hsome⟩
      rw [List.drop_eq_getElem?_toList_append, hget] at hq
      rcases List.mem_cons.mp hq with rfl | hq
      · exact hle'.trans_lt (hlt hsome)
      · exact (hlt' ⟨q, hq, hsome⟩).trans_le hle

/-- A call that is served either exits or brings the loop nearer to it. -/
theorem waitNextEvent_winds (h : L.Winds A I C V w) {poll : Poll ρ ε} (hpoll : poll.Answers A)
    (hserves : poll.Serves) {rules kept : List ρ} {s s' : σ} {result : Result}
    (hrules : rules.Nodup) (hs : I s)
    (hwait : L.waitNextEvent rules s poll = .ok (result, kept, s')) :
    result = .exit ∨ V s' + w * kept.length < V s + w * rules.length := by
  obtain ⟨⟨kept₁, pollfds, s₁⟩, hset, hwait⟩ := bind_eq_ok hwait
  obtain ⟨hI, -, hsub, hall⟩ := setUp_live (P := fun _ => True) h.live hrules
    (fun _ _ => trivial) hs hset
  dsimp only at hwait
  split at hwait
  · cases hwait
    exact Or.inl rfl
  · next hsome =>
    cases poll with
    | timeout => exact hserves.elim
    | failed interrupted => exact hserves.elim
    | ready revents answer =>
      obtain ⟨⟨kept₂, s₂⟩, hdispatch, hret⟩ := bind_eq_ok hwait
      cases hret
      refine Or.inr ?_
      dsimp only
      rw [← pollfds.drop_zero] at hall
      have hnodup := hsub.nodup hrules
      have hshort := (dispatch_live (P := fun _ => True) h.live hpoll (fun _ _ => trivial) hnodup
        (fun _ _ => trivial) hI hall hdispatch).2.length_le
      obtain ⟨-, hlt⟩ := dispatch_winds h hpoll hserves hnodup hI hall hdispatch
      have hpolled : ∃ p ∈ pollfds.drop 0, p.events.isSome = true := by
        rw [List.drop_zero]
        simpa [Option.isSome_iff_ne_none] using hsome
      have hless := hlt hpolled
      have hmul := Nat.mul_le_mul_left w hshort
      rcases setUp_winds h hs hset with ⟨rfl, rfl⟩ | hdown
      · omega
      · omega

end Winds

end EventLoop
end Sponge
