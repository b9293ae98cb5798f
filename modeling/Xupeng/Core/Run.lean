import Mathlib.Data.List.Basic

/-!
# Finite runs of a labelled step function

A system is a partial step function: a label that the current state does not
enable is rejected. All choices of the environment (the scheduler's order, the
outcome of a system call, a clock reading) are carried by the labels, so a run
is a finite list of labels and every interleaving is one such list.

`Guarded` asks a condition of every step in the state before it, `Along` asks
a property of every state reached. The rules here package the inductions over
runs once.
-/

namespace Xupeng

variable {σ α : Type*}

/-- Execute the labels from left to right; a disabled label rejects the run. -/
def run (step : σ → α → Option σ) : σ → List α → Option σ
  | s, [] => some s
  | s, a :: as => (step s a).bind fun t => run step t as

/-- Every step of the run meets `guard` in the state before it. -/
def Guarded (step : σ → α → Option σ) (guard : σ → α → Prop) : σ → List α → Prop
  | _, [] => True
  | s, a :: as => guard s a ∧ ∀ t, step s a = some t → Guarded step guard t as

/-- Every state the run visits, the first and the last included, satisfies `P`. -/
def Along (step : σ → α → Option σ) (P : σ → Prop) : σ → List α → Prop
  | s, [] => P s
  | s, a :: as => P s ∧ ∀ t, step s a = some t → Along step P t as

variable {step : σ → α → Option σ}

/-- A condition on the state after a step can be decided by taking the step. -/
instance decidableForallStep {P : σ → Prop} [∀ t, Decidable (P t)] (o : Option σ) :
    Decidable (∀ t, o = some t → P t) :=
  match o with
  | none => isTrue nofun
  | some u => decidable_of_iff (P u) ⟨fun h _ ht => Option.some.inj ht ▸ h, fun h => h u rfl⟩

instance decidableGuarded {guard : σ → α → Prop} [∀ s a, Decidable (guard s a)] :
    (s : σ) → (as : List α) → Decidable (Guarded step guard s as)
  | _, [] => isTrue trivial
  | s, a :: as =>
    have (t : σ) : Decidable (Guarded step guard t as) := decidableGuarded t as
    have := decidableForallStep (P := fun t => Guarded step guard t as) (step s a)
    inferInstanceAs (Decidable (_ ∧ _))

@[simp] theorem run_nil (s : σ) : run step s [] = some s := rfl

theorem run_cons_eq_some {s t : σ} {a : α} {as : List α} :
    run step s (a :: as) = some t ↔ ∃ u, step s a = some u ∧ run step u as = some t := by
  simp only [run, Option.bind_eq_some_iff]

/-- Two conditions on every step are one condition. -/
theorem Guarded.and {guard guard' : σ → α → Prop} {s : σ} {as : List α}
    (h : Guarded step guard s as) (h' : Guarded step guard' s as) :
    Guarded step (fun s a => guard s a ∧ guard' s a) s as := by
  induction as generalizing s with
  | nil => trivial
  | cons a as ih => exact ⟨⟨h.1, h'.1⟩, fun t ht => ih (h.2 t ht) (h'.2 t ht)⟩

/-- The condition on the step that follows a run. -/
theorem Guarded.of_run {guard : σ → α → Prop} {s t : σ} {as : List α} {a : α}
    (h : Guarded step guard s (as ++ [a])) (hr : run step s as = some t) : guard t a := by
  induction as generalizing s with
  | nil =>
    simp only [run_nil, Option.some.injEq] at hr
    exact hr ▸ h.1
  | cons b as ih =>
    obtain ⟨u, hu, hr⟩ := run_cons_eq_some.mp hr
    exact ih (h.2 u hu) hr

/-- The property holds in the last state of the run. -/
theorem Along.of_run {P : σ → Prop} {s t : σ} {as : List α} (h : Along step P s as)
    (hr : run step s as = some t) : P t := by
  induction as generalizing s with
  | nil =>
    simp only [run_nil, Option.some.injEq] at hr
    exact hr ▸ h
  | cons a as ih =>
    obtain ⟨u, hu, hr⟩ := run_cons_eq_some.mp hr
    exact ih (h.2 u hu) hr

/-- A condition that always holds guards every run. -/
theorem Guarded.of_forall {guard : σ → α → Prop} (h : ∀ s a, guard s a) (s : σ) (as : List α) :
    Guarded step guard s as := by
  induction as generalizing s with
  | nil => trivial
  | cons a as ih => exact ⟨h s a, fun t _ => ih t⟩

/-- A condition that follows from a guard, step by step, under an invariant that the guard
keeps. -/
theorem Guarded.imp {guard guard' : σ → α → Prop} {I : σ → Prop}
    (hI : ∀ s a t, I s → guard s a → step s a = some t → I t)
    (himp : ∀ s a, I s → guard s a → guard' s a) {s : σ} {as : List α} (hs : I s)
    (hg : Guarded step guard s as) : Guarded step guard' s as := by
  induction as generalizing s with
  | nil => trivial
  | cons a as ih =>
    refine ⟨himp s a hs hg.1, fun t ht => ?_⟩
    exact ih (hI s a t hs hg.1 ht) (hg.2 t ht)

/-- What every guarded step preserves, every guarded run preserves. -/
theorem run_invariant_of_guarded {guard : σ → α → Prop} {I : σ → Prop}
    (hstep : ∀ s a t, I s → guard s a → step s a = some t → I t)
    {s t : σ} {as : List α} (hs : I s) (hg : Guarded step guard s as)
    (hr : run step s as = some t) : I t := by
  induction as generalizing s with
  | nil =>
    simp only [run_nil, Option.some.injEq] at hr
    exact hr ▸ hs
  | cons a as ih =>
    obtain ⟨u, hu, hr⟩ := run_cons_eq_some.mp hr
    exact ih (hstep s a u hs hg.1 hu) (hg.2 u hu) hr

/-- The rule without a guard: an inductive invariant holds at the end of every run. -/
theorem run_invariant {I : σ → Prop} (hstep : ∀ s a t, I s → step s a = some t → I t)
    {s t : σ} {as : List α} (hs : I s) (hr : run step s as = some t) : I t := by
  have hg : Guarded step (fun _ _ => True) s as := .of_forall (fun _ _ => trivial) s as
  exact run_invariant_of_guarded (fun s a t hI _ => hstep s a t hI) hs hg hr

/-- What every guarded step preserves holds in every state that a guarded run visits. -/
theorem along_of_guarded {guard : σ → α → Prop} {I P : σ → Prop}
    (hstep : ∀ s a t, I s → guard s a → step s a = some t → I t) (hP : ∀ s, I s → P s)
    {s : σ} {as : List α} (hs : I s) (hg : Guarded step guard s as) : Along step P s as := by
  induction as generalizing s with
  | nil => exact hP s hs
  | cons a as ih => exact ⟨hP s hs, fun t ht => ih (hstep s a t hs hg.1 ht) (hg.2 t ht)⟩

/-- An inductive invariant holds in every state that a run visits. -/
theorem along_of_invariant {I P : σ → Prop} (hstep : ∀ s a t, I s → step s a = some t → I t)
    (hP : ∀ s, I s → P s) {s : σ} (hs : I s) (as : List α) : Along step P s as := by
  have hg : Guarded step (fun _ _ => True) s as := .of_forall (fun _ _ => trivial) s as
  exact along_of_guarded (fun s a t hI _ => hstep s a t hI) hP hs hg

/-- Two conditions on the steps of a run agree if they agree, step by step, under an invariant
that the first one keeps and under a premise on every step. -/
theorem guarded_iff_guarded {pre guard guard' : σ → α → Prop} {I : σ → Prop}
    (hI : ∀ s a t, I s → pre s a → guard s a → step s a = some t → I t)
    (hiff : ∀ s a, I s → pre s a → (guard s a ↔ guard' s a))
    {s : σ} {as : List α} (hs : I s) (hp : Guarded step pre s as) :
    Guarded step guard s as ↔ Guarded step guard' s as := by
  induction as generalizing s with
  | nil => exact Iff.rfl
  | cons a as ih =>
    have hhead := hiff s a hs hp.1
    constructor
    · rintro ⟨hg, hrest⟩
      refine ⟨hhead.mp hg, fun t ht => ?_⟩
      exact (ih (hI s a t hs hp.1 hg ht) (hp.2 t ht)).mp (hrest t ht)
    · rintro ⟨hg, hrest⟩
      refine ⟨hhead.mpr hg, fun t ht => ?_⟩
      exact (ih (hI s a t hs hp.1 (hhead.mpr hg) ht) (hp.2 t ht)).mpr (hrest t ht)

/-- If, under an invariant that the steps between states with `P` keep, a step keeps `P` exactly
when it meets the guard, then `P` holds in every state of a run exactly when every step meets the
guard. Both are asked for the labels of the run only. -/
theorem along_iff_guarded_of_mem {guard : σ → α → Prop} {I P : σ → Prop} {as : List α}
    (hI : ∀ s t, ∀ a ∈ as, I s → P s → P t → step s a = some t → I t)
    (hP : ∀ s t, ∀ a ∈ as, I s → P s → step s a = some t → (P t ↔ guard s a))
    {s : σ} (hs : I s) (hp : P s) (hr : (run step s as).isSome) :
    Along step P s as ↔ Guarded step guard s as := by
  induction as generalizing s with
  | nil => simp only [Along, Guarded, hp]
  | cons a as ih =>
    obtain ⟨t, ht⟩ := Option.isSome_iff_exists.mp hr
    obtain ⟨u, hu, hr⟩ := run_cons_eq_some.mp ht
    have hmem : a ∈ a :: as := List.mem_cons_self
    have hstart (h : Along step P u as) : P u := by cases as <;> simp_all [Along]
    have hrec (h : P u) := ih (fun s t b hb => hI s t b (List.mem_cons_of_mem a hb))
      (fun s t b hb => hP s t b (List.mem_cons_of_mem a hb))
      (hI s u a hmem hs hp h hu) h (by rw [hr]; rfl)
    simp only [Along, Guarded, hu, Option.some.injEq, forall_eq', hp, true_and]
    constructor
    · intro h
      exact ⟨(hP s u a hmem hs hp hu).mp (hstart h), (hrec (hstart h)).mp h⟩
    · rintro ⟨hg, h⟩
      exact (hrec ((hP s u a hmem hs hp hu).mpr hg)).mpr h

/-- The rule for steps that need no condition on their labels. -/
theorem along_iff_guarded {guard : σ → α → Prop} {I P : σ → Prop}
    (hI : ∀ s a t, I s → P s → P t → step s a = some t → I t)
    (hP : ∀ s a t, I s → P s → step s a = some t → (P t ↔ guard s a))
    {s : σ} {as : List α} (hs : I s) (hp : P s) (hr : (run step s as).isSome) :
    Along step P s as ↔ Guarded step guard s as :=
  along_iff_guarded_of_mem (fun s t a _ => hI s a t) (fun s t a _ => hP s a t) hs hp hr

end Xupeng
