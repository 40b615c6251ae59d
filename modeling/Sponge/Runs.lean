import Mathlib.Data.List.Infix

/-!
# Runs of a guarded deterministic machine

A machine has a step function and a guard saying which operations a caller may
perform in a state. A run is a list of operations. Besides the state a run leads
to, three things are read off it: `Occurs`, whether some operation was performed
in a state of a given kind, `track`, a value updated along the run, and
`collect`, everything the operations put out, in order.
-/
namespace Sponge

structure Machine (σ ι : Type*) where
  step : σ → ι → σ
  enabled : σ → ι → Prop

namespace Machine
variable {σ ι γ β : Type*} (M : Machine σ ι)

def run (s : σ) (ops : List ι) : σ := ops.foldl M.step s

/-- Every operation of the run is enabled in the state in which it is performed. -/
def Admits : σ → List ι → Prop
  | _, [] => True
  | s, a :: as => M.enabled s a ∧ Admits (M.step s a) as

/-- Some operation of the run satisfied `E` together with the state before it. -/
def Occurs (E : σ → ι → Prop) : σ → List ι → Prop
  | _, [] => False
  | s, a :: as => E s a ∨ Occurs E (M.step s a) as

def track (upd : γ → σ → ι → γ) : γ → σ → List ι → γ
  | g, _, [] => g
  | g, s, a :: as => track upd (upd g s a) (M.step s a) as

def collect (out : σ → ι → List β) (s : σ) (ops : List ι) : List β :=
  M.track (fun acc t a => acc ++ out t a) [] s ops

/-- The same machine under a stronger guard. -/
def restrict (C : σ → ι → Prop) : Machine σ ι := ⟨M.step, fun s a => M.enabled s a ∧ C s a⟩

instance decidableAdmits [∀ s a, Decidable (M.enabled s a)] :
    ∀ (s : σ) (ops : List ι), Decidable (M.Admits s ops)
  | _, [] => .isTrue trivial
  | s, a :: as => @instDecidableAnd _ _ _ (decidableAdmits (M.step s a) as)

instance decidableRestrict (C : σ → ι → Prop) [∀ s a, Decidable (M.enabled s a)]
    [∀ s a, Decidable (C s a)] (s : σ) (a : ι) : Decidable ((M.restrict C).enabled s a) :=
  inferInstanceAs (Decidable (M.enabled s a ∧ C s a))

@[simp] theorem run_nil (s : σ) : M.run s [] = s := rfl

@[simp] theorem run_cons (s : σ) (a : ι) (as : List ι) :
    M.run s (a :: as) = M.run (M.step s a) as := rfl

theorem run_append (s : σ) (as bs : List ι) :
    M.run s (as ++ bs) = M.run (M.run s as) bs := by
  simp [run, List.foldl_append]

@[simp] theorem run_snoc (s : σ) (as : List ι) (a : ι) :
    M.run s (as ++ [a]) = M.step (M.run s as) a := M.run_append s as [a]

theorem admits_append (s : σ) (as bs : List ι) :
    M.Admits s (as ++ bs) ↔ M.Admits s as ∧ M.Admits (M.run s as) bs := by
  induction as generalizing s with
  | nil => simp [Admits]
  | cons a as ih => simp [Admits, ih, and_assoc]

@[simp] theorem admits_snoc (s : σ) (as : List ι) (a : ι) :
    M.Admits s (as ++ [a]) ↔ M.Admits s as ∧ M.enabled (M.run s as) a := by
  simp [admits_append, Admits]

@[simp] theorem occurs_nil (E : σ → ι → Prop) (s : σ) : ¬ M.Occurs E s [] := id

@[simp] theorem occurs_snoc (E : σ → ι → Prop) (s : σ) (as : List ι) (a : ι) :
    M.Occurs E s (as ++ [a]) ↔ M.Occurs E s as ∨ E (M.run s as) a := by
  induction as generalizing s with
  | nil => simp [Occurs]
  | cons b as ih => simp [Occurs, ih, or_assoc]

@[simp] theorem track_snoc (upd : γ → σ → ι → γ) (g : γ) (s : σ) (as : List ι) (a : ι) :
    M.track upd g s (as ++ [a]) = upd (M.track upd g s as) (M.run s as) a := by
  induction as generalizing g s with
  | nil => rfl
  | cons b as ih => simp [track, ih]

@[simp] theorem collect_nil (out : σ → ι → List β) (s : σ) : M.collect out s [] = [] := rfl

@[simp] theorem collect_snoc (out : σ → ι → List β) (s : σ) (as : List ι) (a : ι) :
    M.collect out s (as ++ [a]) = M.collect out s as ++ out (M.run s as) a :=
  M.track_snoc _ _ _ _ _

theorem collect_cons (out : σ → ι → List β) (s : σ) (a : ι) (as : List ι) :
    M.collect out s (a :: as) = out s a ++ M.collect out (M.step s a) as := by
  induction as using List.reverseRecOn with
  | nil => simp [collect, track]
  | append_singleton as b ih =>
    rw [← List.cons_append, collect_snoc, ih, collect_snoc, run_cons, List.append_assoc]

theorem collect_append (out : σ → ι → List β) (s : σ) (as bs : List ι) :
    M.collect out s (as ++ bs) = M.collect out s as ++ M.collect out (M.run s as) bs := by
  induction bs using List.reverseRecOn with
  | nil => simp
  | append_singleton bs b ih =>
    rw [← List.append_assoc, collect_snoc, ih, collect_snoc, run_append, List.append_assoc]

theorem collect_length_le (f : σ → ι → List α) (s : σ) (as bs : List ι) :
    (M.collect f s as).length ≤ (M.collect f s (as ++ bs)).length := by
  rw [collect_append, List.length_append]
  exact Nat.le_add_right _ _

theorem flatMap_collect {f : σ → ι → List β} {g : β → List γ} {h : ι → List γ}
    (hfg : ∀ s a, (f s a).flatMap g = h a) (s : σ) (ops : List ι) :
    (M.collect f s ops).flatMap g = ops.flatMap h := by
  induction ops generalizing s with
  | nil => rfl
  | cons a ops ih => rw [collect_cons, List.flatMap_append, hfg, ih, List.flatMap_cons]

@[simp] theorem restrict_run (C : σ → ι → Prop) (s : σ) (ops : List ι) :
    (M.restrict C).run s ops = M.run s ops := rfl

@[simp] theorem restrict_collect (C : σ → ι → Prop) (out : σ → ι → List β) (s : σ) (ops : List ι) :
    (M.restrict C).collect out s ops = M.collect out s ops := by
  induction ops generalizing s with
  | nil => rfl
  | cons a ops ih => rw [collect_cons, collect_cons, ih, restrict]

/-- Induction over the runs a machine admits, the latest operation last. -/
theorem run_induction {s : σ} {P : List ι → Prop} (hinit : P [])
    (hstep : ∀ past a, M.Admits s past → M.enabled (M.run s past) a → P past → P (past ++ [a]))
    {ops : List ι} (hops : M.Admits s ops) : P ops := by
  induction ops using List.reverseRecOn with
  | nil => exact hinit
  | append_singleton past a ih =>
    obtain ⟨hpast, ha⟩ := (M.admits_snoc s past a).mp hops
    exact hstep past a hpast ha (ih hpast)

/-- What holds initially and is kept by every enabled operation holds after every run. -/
theorem invariant {I : σ → Prop} {s : σ} (hinit : I s)
    (hstep : ∀ t a, I t → M.enabled t a → I (M.step t a))
    {ops : List ι} (hops : M.Admits s ops) : I (M.run s ops) := by
  refine M.run_induction (P := fun ops => I (M.run s ops)) hinit ?_ hops
  intro past a _ ha hpast
  rw [run_snoc]
  exact hstep _ a hpast ha

/-- What holds at every operation of a run holds at those of its past and at the latest. -/
theorem forall_split_snoc {P : List ι → ι → Prop} {past : List ι} {a : ι} :
    (∀ early b late, past ++ [a] = early ++ b :: late → P early b) ↔
      (∀ early b late, past = early ++ b :: late → P early b) ∧ P past a := by
  constructor
  · intro h
    refine ⟨fun early b late hsplit => h early b (late ++ [a]) ?_, h past a [] rfl⟩
    rw [hsplit, List.append_assoc, List.cons_append]
  · rintro ⟨hpast, ha⟩ early b late hsplit
    rcases List.eq_nil_or_concat late with rfl | ⟨init, c, rfl⟩
    · obtain ⟨rfl, hb⟩ := List.append_inj' hsplit rfl
      cases hb
      exact ha
    · rw [List.concat_eq_append, ← List.cons_append, ← List.append_assoc] at hsplit
      exact hpast early b init (List.append_inj' hsplit rfl).1

theorem admits_iff {s : σ} {ops : List ι} :
    M.Admits s ops ↔ ∀ past a later, ops = past ++ a :: later → M.enabled (M.run s past) a := by
  induction ops using List.reverseRecOn with
  | nil => simp [Admits]
  | append_singleton past a ih =>
    rw [admits_snoc, forall_split_snoc (P := fun past a => M.enabled (M.run s past) a), ih]

theorem admits_of_restrict {C : σ → ι → Prop} {s : σ} {ops : List ι}
    (h : (M.restrict C).Admits s ops) : M.Admits s ops := by
  induction ops generalizing s with
  | nil => trivial
  | cons a ops ih => exact ⟨h.1.1, ih h.2⟩

theorem restrict_mono {C D : σ → ι → Prop} (hCD : ∀ s a, C s a → D s a) {s : σ} {ops : List ι}
    (h : (M.restrict C).Admits s ops) : (M.restrict D).Admits s ops := by
  induction ops generalizing s with
  | nil => trivial
  | cons a ops ih => exact ⟨⟨h.1.1, hCD s a h.1.2⟩, ih h.2⟩

/-- Some run the machine admits goes from `s` to `t`. -/
def Leads (s t : σ) : Prop := ∃ ops, M.Admits s ops ∧ M.run s ops = t

section Leads
variable {M} {I G : σ → Prop} {s t u : σ}

theorem Leads.refl (s : σ) : M.Leads s s := ⟨[], trivial, rfl⟩

theorem Leads.step {a : ι} (h : M.enabled s a) : M.Leads s (M.step s a) := ⟨[a], ⟨h, trivial⟩, rfl⟩

theorem Leads.trans (hst : M.Leads s t) (htu : M.Leads t u) : M.Leads s u := by
  obtain ⟨as, has, rfl⟩ := hst
  obtain ⟨bs, hbs, rfl⟩ := htu
  exact ⟨as ++ bs, (M.admits_append s as bs).mpr ⟨has, hbs⟩, M.run_append s as bs⟩

theorem Leads.invariant (h : M.Leads s t) (hs : I s)
    (hstep : ∀ t a, I t → M.enabled t a → I (M.step t a)) : I t := by
  obtain ⟨ops, hops, rfl⟩ := h
  exact M.invariant hs hstep hops

/-- If from every state of the invariant some run leads to the goal or to a state with a smaller
measure, then the goal can be reached. -/
theorem leads_of_lt (μ : σ → ℕ)
    (h : ∀ s, I s → ∃ t, M.Leads s t ∧ I t ∧ (G t ∨ μ t < μ s)) (hs : I s) :
    ∃ t, M.Leads s t ∧ I t ∧ G t := by
  induction hn : μ s using Nat.strong_induction_on generalizing s with
  | _ n ih =>
    obtain ⟨t, hst, ht, hgoal | hless⟩ := h s hs
    · exact ⟨t, hst, ht, hgoal⟩
    · obtain ⟨u, htu, hu, hgoal⟩ := ih (μ t) (hn ▸ hless) ht rfl
      exact ⟨u, hst.trans htu, hu, hgoal⟩

end Leads

/-- Each enabled operation of `M` keeps `R` when `N` performs the operations `f` has for it, none,
one or several. -/
def Simulates {τ κ : Type*} (M : Machine σ ι) (N : Machine τ κ) (f : ι → List κ)
    (R : σ → τ → Prop) : Prop :=
  ∀ s t a, R s t → M.enabled s a → R (M.step s a) (N.run t (f a))

namespace Simulates
variable {τ κ : Type*} {M : Machine σ ι} {N : Machine τ κ} {f : ι → List κ} {R : σ → τ → Prop}
  {s : σ} {t : τ} {ops : List ι}

theorem run (h : M.Simulates N f R) (hR : R s t) (hops : M.Admits s ops) :
    R (M.run s ops) (N.run t (ops.flatMap f)) := by
  induction ops generalizing s t with
  | nil => exact hR
  | cons a ops ih =>
    rw [List.flatMap_cons, run_append]
    exact ih (h s t a hR hops.1) hops.2

/-- Outputs that agree operation by operation agree over the run. -/
theorem collect_eq {out : σ → ι → List β} {out' : τ → κ → List β} (h : M.Simulates N f R)
    (hout : ∀ s t a, R s t → M.enabled s a → out s a = N.collect out' t (f a))
    (hR : R s t) (hops : M.Admits s ops) :
    M.collect out s ops = N.collect out' t (ops.flatMap f) := by
  induction ops generalizing s t with
  | nil => rfl
  | cons a ops ih =>
    rw [collect_cons, List.flatMap_cons, collect_append, hout s t a hR hops.1,
      ih (h s t a hR hops.1) hops.2]

end Simulates
end Machine
end Sponge
