import Mathlib.Data.List.MinMax

/-!
# The last of the largest elements

`List.argmax` gives the first of the elements with the largest key. A scan that replaces its
candidate by every later element with a key at least as large ends with the last of them, among
those that satisfy a condition.
-/
namespace Sponge
variable {α κ : Type*} [LinearOrder κ] (p : α → Prop) [DecidablePred p] (key : α → κ)

def lastMax (l : List α) : Option α := (l.filter p).reverse.argmax key

/-- One turn of the scan. -/
theorem lastMax_snoc (l : List α) (x : α) :
    lastMax p key (l ++ [x]) =
      if p x ∧ ∀ best, lastMax p key l = some best → key best ≤ key x then some x
      else lastMax p key l := by
  by_cases hx : p x
  · have hscan : lastMax p key (l ++ [x]) = (x :: (l.filter p).reverse).argmax key := by
      simp [lastMax, hx]
    rw [hscan, List.argmax_cons]
    cases hbest : (l.filter p).reverse.argmax key with
    | none => simp [lastMax, hx, hbest]
    | some best =>
      by_cases hlt : key x < key best
      · simp [lastMax, hbest, hlt]
      · simp [lastMax, hbest, hlt, hx, not_lt.mp hlt]
  · simp [lastMax, hx]

section Spec
variable {p key} {l l' : List α} {m : α}

theorem lastMax_eq_none_iff : lastMax p key l = none ↔ ∀ x ∈ l, ¬ p x := by
  simp [lastMax, List.argmax_eq_none, List.filter_eq_nil_iff]

theorem lastMax_mem (h : lastMax p key l = some m) : m ∈ l ∧ p m := by
  have hmem := List.argmax_mem (Option.mem_def.mpr h)
  simpa using hmem

theorem le_lastMax (h : lastMax p key l = some m) {x : α} (hx : x ∈ l) (hpx : p x) :
    key x ≤ key m :=
  List.le_of_mem_argmax (by simp [hx, hpx]) (Option.mem_def.mpr h)

/-- Everything before the result is at most as large, and everything behind it smaller. -/
theorem lastMax_split (h : lastMax p key l = some m) :
    ∃ before after, l = before ++ m :: after ∧ p m ∧ (∀ x ∈ before, p x → key x ≤ key m) ∧
      ∀ x ∈ after, p x → key x < key m := by
  induction l using List.reverseRecOn with
  | nil => cases h
  | append_singleton l x ih =>
    rw [lastMax_snoc] at h
    split at h
    · next hx =>
      cases h
      refine ⟨l, [], rfl, hx.1, fun y hy hpy => ?_, List.forall_mem_nil _⟩
      obtain ⟨best, hbest⟩ : ∃ best, lastMax p key l = some best := by
        apply Option.ne_none_iff_exists'.mp
        exact fun hnone => lastMax_eq_none_iff.mp hnone y hy hpy
      exact (le_lastMax hbest hy hpy).trans (hx.2 best hbest)
    · next hx =>
      obtain ⟨before, after, rfl, hm, hbefore, hafter⟩ := ih h
      refine ⟨before, after ++ [x], by simp, hm, hbefore, ?_⟩
      refine List.forall_mem_append.mpr ⟨hafter, List.forall_mem_singleton.mpr fun hpx => ?_⟩
      by_contra hle
      refine hx ⟨hpx, fun best hbest => ?_⟩
      rw [h] at hbest
      cases hbest
      exact not_lt.mp hle

/-- Without two candidates of the same size the order of the list does not matter. -/
theorem lastMax_perm (hperm : l.Perm l')
    (hinj : ∀ x ∈ l, ∀ y ∈ l, p x → p y → key x = key y → x = y) :
    lastMax p key l' = lastMax p key l := by
  cases h : lastMax p key l with
  | none =>
    rw [lastMax_eq_none_iff] at h ⊢
    exact fun x hx => h x (hperm.mem_iff.mpr hx)
  | some m =>
    obtain ⟨hm, hpm⟩ := lastMax_mem h
    cases h' : lastMax p key l' with
    | none => exact absurd hpm (lastMax_eq_none_iff.mp h' m (hperm.mem_iff.mp hm))
    | some m' =>
      obtain ⟨hm', hpm'⟩ := lastMax_mem h'
      have hmem := hperm.mem_iff.mpr hm'
      have hkey := le_antisymm (le_lastMax h hmem hpm') (le_lastMax h' (hperm.mem_iff.mp hm) hpm)
      rw [hinj m' hmem m hm hpm' hpm hkey]

end Spec
end Sponge
