import Mathlib.Logic.Function.Iterate

/-!
# Loops

Loops that leave off after a number of turns, loops whose turns may throw, and calls that leave a
state behind when they throw.
-/
namespace Sponge

section Turns
variable {α : Type*} {guard : α → Prop} {body : α → α} {k : ℕ} {a : α}

/-- A loop makes `k` turns: the guard holds before each of them and not after the last. -/
structure Exits (guard : α → Prop) (body : α → α) (k : ℕ) (a : α) : Prop where
  guarded : ∀ j < k, guard (body^[j] a)
  done : ¬ guard (body^[k] a)

namespace Exits

theorem zero (h : ¬ guard a) : Exits guard body 0 a :=
  ⟨fun _ hj => absurd hj (Nat.not_lt_zero _), h⟩

theorem succ (ha : guard a) (h : Exits guard body k (body a)) : Exits guard body (k + 1) a := by
  refine ⟨fun j hj => ?_, h.done⟩
  cases j with
  | zero => exact ha
  | succ j => exact h.guarded j (Nat.lt_of_succ_lt_succ hj)

theorem tail (h : Exits guard body (k + 1) a) : Exits guard body k (body a) :=
  ⟨fun j hj => h.guarded (j + 1) (Nat.succ_lt_succ hj), h.done⟩

/-- What every turn keeps holds when the loop leaves off. -/
theorem invariant {I : α → Prop} (hI : ∀ b, guard b → I b → I (body b))
    (h : Exits guard body k a) (ha : I a) : I (body^[k] a) := by
  induction k generalizing a with
  | zero => exact ha
  | succ k ih => exact ih h.tail (hI a (h.guarded 0 (Nat.succ_pos k)) ha)

end Exits

/-- A loop whose turns lower a rank leaves off, after no more turns than the rank. -/
theorem exists_exits {I : α → Prop} (hI : ∀ b, guard b → I b → I (body b)) (rank : α → ℕ)
    (hrank : ∀ b, guard b → I b → rank (body b) < rank b) (ha : I a) :
    ∃ k ≤ rank a, Exits guard body k a := by
  induction hr : rank a using Nat.strongRecOn generalizing a with
  | ind r ih =>
    subst hr
    by_cases hguard : guard a
    · have hlt := hrank a hguard ha
      obtain ⟨k, hk, hexits⟩ := ih _ hlt (hI a hguard ha) rfl
      exact ⟨k + 1, Nat.succ_le_of_lt (Nat.lt_of_le_of_lt hk hlt), hexits.succ hguard⟩
    · exact ⟨0, Nat.zero_le _, .zero hguard⟩

end Turns

section Throwing
universe u
variable {ε : Type*} {α β : Type u} {x : Except ε α} {b : β}

/-- A sequence of two calls returns only if both do. -/
theorem bind_eq_ok {f : α → Except ε β} (h : x >>= f = .ok b) : ∃ a, x = .ok a ∧ f a = .ok b := by
  cases x with
  | error e => cases h
  | ok a => exact ⟨a, rfl, h⟩

theorem eq_ok_of_toOption {a : α} (h : x.toOption = some a) : x = .ok a := by
  cases x with
  | error e => cases h
  | ok b => exact congrArg Except.ok (Option.some.inj h)

/-- What every turn that returns keeps holds when the loop returns. -/
theorem foldlM_keeps {I : α → Prop} {turn : α → β → Except ε α} {a a' : α} {l : List β}
    (hI : ∀ a, ∀ b ∈ l, ∀ a', I a → turn a b = .ok a' → I a') (ha : I a)
    (h : l.foldlM turn a = .ok a') : I a' := by
  induction l generalizing a with
  | nil =>
    cases h
    exact ha
  | cons b l ih =>
    rw [List.foldlM_cons] at h
    obtain ⟨a₁, hturn, hrest⟩ := bind_eq_ok h
    exact ih (fun c d hd => hI c d (List.mem_cons_of_mem b hd))
      (hI a b List.mem_cons_self a₁ ha hturn) hrest

theorem foldlM_invariant {I : α → Prop} {turn : α → β → Except ε α} {a a' : α} {l : List β}
    (hI : ∀ a b a', I a → turn a b = .ok a' → I a') (ha : I a) (h : l.foldlM turn a = .ok a') :
    I a' :=
  foldlM_keeps (fun a b _ a' => hI a b a') ha h

/-- A loop whose turns lower a measure until they reach `D`, and then stay there, reaches it. -/
theorem foldlM_reaches {I D : α → Prop} {μ : α → ℕ} {turn : α → β → Except ε α} {a a' : α}
    {l : List β} (hstays : ∀ a b a', D a → turn a b = .ok a' → D a')
    (hturn : ∀ a, ∀ b ∈ l, ∀ a', I a → turn a b = .ok a' → D a' ∨ I a' ∧ μ a' < μ a) (ha : I a)
    (hlong : μ a < l.length) (h : l.foldlM turn a = .ok a') : D a' := by
  induction l generalizing a with
  | nil => exact absurd hlong (Nat.not_lt_zero _)
  | cons b l ih =>
    rw [List.foldlM_cons] at h
    obtain ⟨a₁, hone, hrest⟩ := bind_eq_ok h
    rcases hturn a b List.mem_cons_self a₁ ha hone with hdone | ⟨ha₁, hless⟩
    · exact foldlM_invariant hstays hdone hrest
    · rw [List.length_cons] at hlong
      exact ih (fun c d hd => hturn c d (List.mem_cons_of_mem b hd)) ha₁ (by omega) hrest

/-- A call throws nothing but what `E` allows. -/
def ThrowsOnly (E : ε → Prop) (x : Except ε α) : Prop := ∀ e, x = .error e → E e

namespace ThrowsOnly
variable {E : ε → Prop}

theorem of_ok {a : α} (h : x = .ok a) : ThrowsOnly E x := by
  intro e he
  rw [h] at he
  cases he

theorem bind {f : α → Except ε β} (hx : ThrowsOnly E x)
    (hf : ∀ a, x = .ok a → ThrowsOnly E (f a)) : ThrowsOnly E (x >>= f) := by
  intro e he
  cases x with
  | error e' =>
    cases he
    exact hx _ rfl
  | ok a => exact hf a rfl e he

/-- A loop throws only what its turns throw. -/
theorem foldlM {I : α → Prop} {turn : α → β → Except ε α} {a : α} {l : List β}
    (hI : ∀ a, ∀ b ∈ l, ∀ a', I a → turn a b = .ok a' → I a')
    (hturn : ∀ a, ∀ b ∈ l, I a → ThrowsOnly E (turn a b)) (ha : I a) :
    ThrowsOnly E (l.foldlM turn a) := by
  induction l generalizing a with
  | nil => exact .of_ok rfl
  | cons b l ih =>
    rw [List.foldlM_cons]
    refine (hturn a b List.mem_cons_self ha).bind fun a' ha' => ih ?_ ?_ ?_
    · exact fun c d hd => hI c d (List.mem_cons_of_mem b hd)
    · exact fun c d hd => hturn c d (List.mem_cons_of_mem b hd)
    · exact hI a b List.mem_cons_self a' ha ha'

end ThrowsOnly

end Throwing

section Leaving
universe u v
variable {σ : Type u} {τ : Type v}

/-- What a call comes to: a value, or an exception and the state it leaves behind. -/
abbrev Outcome (σ : Type u) := Except (String × σ)

namespace Outcome

/-- The state after a call that returns it, whether it does so or throws. -/
def state : Outcome σ σ → σ
  | .ok s => s
  | .error (_, s) => s

/-- The call of a part, whose exceptions leave the whole behind. -/
def lift {α : Type u} (f : σ → τ) (x : Outcome σ α) : Outcome τ α := x.mapError (Prod.map id f)

/-- What the call of a part comes to for the whole. -/
def within (f : σ → τ) : Outcome σ σ → Outcome τ τ
  | .ok s => .ok (f s)
  | .error (message, s) => .error (message, f s)

/-- The outcome for a caller that an exception ends: the state is of no more use. -/
def forget {α : Type u} : Outcome σ α → Except String α
  | .ok a => .ok a
  | .error (message, _) => .error message

@[simp] theorem state_ok (s : σ) : state (.ok s) = s := rfl

@[simp] theorem state_error (message : String) (s : σ) : state (.error (message, s)) = s := rfl

@[simp] theorem lift_ok {α : Type u} (f : σ → τ) (a : α) : lift f (.ok a) = .ok a := rfl

@[simp] theorem lift_error {α : Type u} (f : σ → τ) (message : String) (s : σ) :
    lift f (.error (message, s) : Outcome σ α) = .error (message, f s) := rfl

@[simp] theorem within_ok (f : σ → τ) (s : σ) : within f (.ok s) = .ok (f s) := rfl

@[simp] theorem within_error (f : σ → τ) (message : String) (s : σ) :
    within f (.error (message, s)) = .error (message, f s) := rfl

@[simp] theorem forget_ok {α : Type u} (a : α) : forget (.ok a : Outcome σ α) = .ok a := rfl

theorem forget_eq_ok {α : Type u} {x : Outcome σ α} {a : α} : x.forget = .ok a ↔ x = .ok a := by
  cases x <;> simp [forget]

theorem within_within {υ : Type*} (g : τ → υ) (f : σ → τ) (x : Outcome σ σ) :
    within g (within f x) = within (g ∘ f) x := by
  cases x <;> rfl

@[simp] theorem state_within (f : σ → τ) (x : Outcome σ σ) : (within f x).state = f x.state := by
  cases x <;> rfl

end Outcome

/-- A part of a call that does not change the state, which is `s` by then. -/
def leaving {α : Type u} (s : σ) (x : Except String α) : Outcome σ α := x.mapError (·, s)

@[simp] theorem leaving_ok {α : Type u} (s : σ) (a : α) : leaving s (.ok a) = .ok a := rfl

@[simp] theorem leaving_error {α : Type u} (s : σ) (message : String) :
    leaving s (.error message : Except String α) = .error (message, s) := rfl

end Leaving

end Sponge
