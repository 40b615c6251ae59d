import Mathlib.Data.List.TakeDrop

/-!
# Sequences kept in pieces

A sequence is a list of pieces, each of which shows a part of it. A prefix is removed by dropping
whole pieces and cutting the one it ends in; to remove more than there is fails.
-/
namespace Sponge

/-- A kind of piece: what it shows, how it is cut, and the error of removing too much. -/
structure Pieces (ε α β : Type*) where
  shown : α → List β
  cut : α → ℕ → Except ε α
  underflow : ε
  cut_lt : ∀ x n, n < (shown x).length → ∃ y, cut x n = .ok y ∧ shown y = (shown x).drop n

namespace Pieces
variable {ε α β : Type*} (K : Pieces ε α β)

def contents (l : List α) : List β := l.flatMap K.shown

def remove : List α → ℕ → Except ε (List α)
  | l, 0 => .ok l
  | [], _ + 1 => .error K.underflow
  | x :: l, n + 1 =>
    if n + 1 < (K.shown x).length then (K.cut x (n + 1)).map (· :: l)
    else remove l (n + 1 - (K.shown x).length)

@[simp] theorem contents_nil : K.contents [] = [] := rfl

@[simp] theorem contents_cons (x : α) (l : List α) :
    K.contents (x :: l) = K.shown x ++ K.contents l := rfl

section Remove
variable {l : List α} {n : ℕ}

theorem remove_of_lt (h : (K.contents l).length < n) : K.remove l n = .error K.underflow := by
  induction l generalizing n with
  | nil =>
    obtain ⟨k, rfl⟩ := Nat.exists_eq_succ_of_ne_zero (Nat.ne_of_gt h)
    rfl
  | cons x l ih =>
    rw [contents_cons, List.length_append] at h
    obtain ⟨k, rfl⟩ := Nat.exists_eq_succ_of_ne_zero (Nat.ne_of_gt (Nat.zero_lt_of_lt h))
    rw [remove, if_neg (by omega)]
    exact ih (by omega)

theorem remove_of_le (h : n ≤ (K.contents l).length) :
    ∃ l', K.remove l n = .ok l' ∧ K.contents l' = (K.contents l).drop n := by
  induction l generalizing n with
  | nil =>
    obtain rfl := Nat.le_zero.mp h
    exact ⟨[], rfl, rfl⟩
  | cons x l ih =>
    cases n with
    | zero => exact ⟨x :: l, rfl, rfl⟩
    | succ n =>
      rw [contents_cons, List.length_append] at h
      rw [remove]
      split
      · next hlt =>
        -- the prefix ends inside the first piece
        obtain ⟨y, hcut, hy⟩ := K.cut_lt x (n + 1) hlt
        refine ⟨y :: l, by rw [hcut]; rfl, ?_⟩
        rw [contents_cons, contents_cons, hy, List.drop_append_of_le_length (Nat.le_of_lt hlt)]
      · next hge =>
        obtain ⟨l', hrest, hl'⟩ := ih (n := n + 1 - (K.shown x).length) (by omega)
        refine ⟨l', hrest, ?_⟩
        rw [hl', contents_cons, List.drop_append, List.drop_of_length_le (Nat.not_lt.mp hge),
          List.nil_append]

theorem remove_error_iff : (∃ e, K.remove l n = .error e) ↔ (K.contents l).length < n := by
  constructor
  · rintro ⟨e, he⟩
    by_contra hle
    obtain ⟨l', hok, -⟩ := K.remove_of_le (Nat.not_lt.mp hle)
    rw [he] at hok
    cases hok
  · exact fun h => ⟨_, K.remove_of_lt h⟩

theorem contents_of_remove {l' : List α} (h : K.remove l n = .ok l') :
    n ≤ (K.contents l).length ∧ K.contents l' = (K.contents l).drop n := by
  have hle : n ≤ (K.contents l).length := by
    by_contra hlt
    rw [K.remove_of_lt (Nat.not_le.mp hlt)] at h
    cases h
  obtain ⟨l'', hok, hl''⟩ := K.remove_of_le hle
  rw [hok] at h
  cases h
  exact ⟨hle, hl''⟩

end Remove

section Agree
variable {ε' γ : Type*} (K' : Pieces ε' γ β)

/-- Two results that show the same, or two failures. -/
def Agree : Except ε (List α) → Except ε' (List γ) → Prop
  | .ok l, .ok m => K.contents l = K'.contents m
  | .error _, .error _ => True
  | _, _ => False

variable {K K'}

theorem agree_cases {x : Except ε (List α)} {y : Except ε' (List γ)} (h : Agree K K' x y) :
    (∃ l m, x = .ok l ∧ y = .ok m ∧ K.contents l = K'.contents m) ∨
      ∃ e e', x = .error e ∧ y = .error e' := by
  cases x with
  | ok l =>
    cases y with
    | ok m => exact .inl ⟨l, m, rfl, rfl, h⟩
    | error e => exact h.elim
  | error e =>
    cases y with
    | ok m => exact h.elim
    | error e' => exact .inr ⟨e, e', rfl, rfl⟩

theorem remove_agree {l : List α} {m : List γ} (h : K.contents l = K'.contents m) (n : ℕ) :
    Agree K K' (K.remove l n) (K'.remove m n) := by
  by_cases hn : n ≤ (K.contents l).length
  · obtain ⟨l', hl, hl'⟩ := K.remove_of_le hn
    obtain ⟨m', hm, hm'⟩ := K'.remove_of_le (h ▸ hn)
    rw [hl, hm, Agree, hl', hm', h]
  · rw [K.remove_of_lt (Nat.not_le.mp hn), K'.remove_of_lt (h ▸ Nat.not_le.mp hn)]
    trivial

/-- However the two are divided into pieces, they stay the same under the same removals. -/
theorem removals_agree {l : List α} {m : List γ} (h : K.contents l = K'.contents m) (ns : List ℕ) :
    Agree K K' (ns.foldlM K.remove l) (ns.foldlM K'.remove m) := by
  induction ns generalizing l m with
  | nil => exact h
  | cons n ns ih =>
    rw [List.foldlM_cons, List.foldlM_cons]
    obtain ⟨l', m', hl, hm, hstep⟩ | ⟨e, e', hl, hm⟩ := agree_cases (remove_agree h n)
    · rw [hl, hm]
      exact ih hstep
    · rw [hl, hm]
      trivial

end Agree

end Pieces
end Sponge
