import Mathlib.Data.Finset.Max
import Mathlib.Logic.Hydra
import Xupeng.Core.Entries
import Xupeng.Core.Locking
import Xupeng.Core.Run

/-!
# Threads that take locks

The threads take their statements in any order; a thread that wants a lock waits while any
thread has it. If every thread takes its locks in one order, the threads can always go on to
their ends. If every thread keeps, at each of its actions, what the locks of the others
protect, then what it knows of the parts whose locks it has stays true.
-/

namespace Xupeng

variable {σ L P α β : Type}

/-- A thread, with the locks that it has. -/
structure Locker (σ L α : Type) where
  code : Code σ L α
  held : List L

/-- The threads and what they share, which is gone when the process has crashed. -/
structure Lockers (σ L α : Type) where
  shared : Option σ
  threads : List (Locker σ L α)

namespace Lockers

variable [DecidableEq L]

/-- Some thread has the lock. -/
def Taken (s : Lockers σ L α) (l : L) : Prop := ∃ t ∈ s.threads, l ∈ t.held

instance (s : Lockers σ L α) (l : L) : Decidable (s.Taken l) := List.decidableBEx _ _

/-- One statement of a thread. -/
def step (s : Lockers σ L α) (i : Nat) : Option (Lockers σ L α) :=
  match s.shared, s.threads[i]? with
  | some x, some t =>
    match t.code with
    | .pure _ => none
    | .acquire l k =>
      if s.Taken l then none else some { s with threads := s.threads.set i ⟨k, l :: t.held⟩ }
    | .release l k => some { s with threads := s.threads.set i ⟨k, t.held.erase l⟩ }
    | .act f k => some ⟨f x, s.threads.set i ⟨k x, t.held⟩⟩
  | _, _ => none

/-- The threads at their beginnings. -/
def start (x : σ) (codes : List (Code σ L α)) : Lockers σ L α := ⟨some x, codes.map (⟨·, []⟩)⟩

/-- All threads have their values. -/
def Finished (s : Lockers σ L α) : Prop := ∀ t ∈ s.threads, ∃ a, t.code = .pure a

/-- What a statement of a thread does. -/
inductive Stepped (s : Lockers σ L α) (i : Nat) (x : σ) (held : List L) : Lockers σ L α → Prop
  | acquire {l : L} {k : Code σ L α} (hi : s.threads[i]? = some ⟨.acquire l k, held⟩)
      (hfree : ¬ s.Taken l) :
      Stepped s i x held ⟨some x, s.threads.set i ⟨k, l :: held⟩⟩
  | release {l : L} {k : Code σ L α} (hi : s.threads[i]? = some ⟨.release l k, held⟩) :
      Stepped s i x held ⟨some x, s.threads.set i ⟨k, held.erase l⟩⟩
  | act {f : σ → Option σ} {k : σ → Code σ L α} (hi : s.threads[i]? = some ⟨.act f k, held⟩) :
      Stepped s i x held ⟨f x, s.threads.set i ⟨k x, held⟩⟩

/-- Every step is one of the three kinds. -/
theorem step_stepped {s t : Lockers σ L α} {i : Nat} (h : s.step i = some t) :
    ∃ x held, s.shared = some x ∧ s.Stepped i x held t := by
  obtain ⟨_ | x, threads⟩ := s
  · cases h
  · refine ⟨x, ?_⟩
    simp only [step] at h
    split at h
    · next th heq hi =>
      cases heq
      obtain ⟨code, held⟩ := th
      refine ⟨held, rfl, ?_⟩
      cases code with
      | pure a => cases h
      | acquire l k =>
        simp only at h
        split at h
        · cases h
        · next hfree =>
          cases h
          exact .acquire hi hfree
      | release l k =>
        cases h
        exact .release hi
      | act f k =>
        cases h
        exact .act hi
    · cases h

/-! ### One order of the locks -/

section Climbing

variable [Preorder P] {rank : L → P} {s t : Lockers σ L α} {i : Nat}

/-- Every thread takes its locks in the order. -/
def Climbing (rank : L → P) (s : Lockers σ L α) : Prop :=
  ∀ t ∈ s.threads, t.code.Climbs rank [] t.held

theorem start_climbing {x : σ} {codes : List (Code σ L α)}
    (h : ∀ c ∈ codes, c.Climbs rank [] []) : (start x codes).Climbing rank := by
  intro t ht
  obtain ⟨c, hc, rfl⟩ := List.mem_map.mp ht
  exact h c hc

/-- One step of any thread keeps all of them climbing. -/
theorem step_climbing (h : s.Climbing rank) (hstep : s.step i = some t) : t.Climbing rank := by
  obtain ⟨x, held, -, hstep⟩ := step_stepped hstep
  cases hstep with
  | acquire hi hfree => exact forall_mem_set h (h _ (List.mem_of_getElem? hi)).2
  | release hi =>
    have hclimbs := h _ (List.mem_of_getElem? hi)
    exact forall_mem_set h hclimbs
  | act hi => exact forall_mem_set h (h _ (List.mem_of_getElem? hi) x)

/-- A thread that is not at its end takes a step, or it waits for a lock that some thread
has. -/
theorem exists_step_or_taken {x : σ} (hx : s.shared = some x) {th : Locker σ L α}
    (hi : s.threads[i]? = some th) (hne : ∀ a, th.code ≠ .pure a) :
    (∃ t, s.step i = some t) ∨ ∃ l, th.code.wants = some l ∧ s.Taken l := by
  simp only [step, hx, hi]
  cases hc : th.code with
  | pure a => exact absurd hc (hne a)
  | acquire l k =>
    by_cases hl : s.Taken l
    · exact Or.inr ⟨l, rfl, hl⟩
    · exact Or.inl ⟨_, if_neg hl⟩
  | release l k => exact Or.inl ⟨_, rfl⟩
  | act f k => exact Or.inl ⟨_, rfl⟩

/-- The thread that waits for the highest lock of all waits for a thread that does not wait. -/
theorem exists_step (h : s.Climbing rank) {x : σ} (hx : s.shared = some x) (hne : ¬ s.Finished) :
    ∃ i t, s.step i = some t := by
  by_contra hstuck
  have hwaits {th : Locker σ L α} (hth : th ∈ s.threads) (hend : ∀ a, th.code ≠ .pure a) :
      ∃ l, th.code.wants = some l ∧ s.Taken l := by
    obtain ⟨i, hi⟩ := List.mem_iff_getElem?.mp hth
    refine (exists_step_or_taken hx hi hend).resolve_left ?_
    rintro ⟨t, ht⟩
    exact hstuck ⟨i, t, ht⟩
  let wanted := (s.threads.filterMap fun th => th.code.wants).toFinset
  have hmem {th : Locker σ L α} {l : L} (hth : th ∈ s.threads) (hl : th.code.wants = some l) :
      l ∈ wanted := List.mem_toFinset.mpr (List.mem_filterMap.mpr ⟨th, hth, hl⟩)
  have hnonempty : wanted.Nonempty := by
    simp only [Finished, not_forall, not_exists] at hne
    obtain ⟨th, hth, hend⟩ := hne
    obtain ⟨l, hl, -⟩ := hwaits hth hend
    exact ⟨l, hmem hth hl⟩
  obtain ⟨l, hl, hmax⟩ := wanted.exists_maximalFor rank hnonempty
  -- the thread that has this lock is not at its end, and so it waits for a higher one
  obtain ⟨th, hth, hwants⟩ := List.mem_filterMap.mp (List.mem_toFinset.mp hl)
  have hend (a : α) : th.code ≠ .pure a := by
    intro hcode
    rw [hcode] at hwants
    cases hwants
  obtain ⟨l', hl', holder, hholder, hheld⟩ := hwaits hth hend
  obtain rfl : l = l' := Option.some.inj (hwants.symm.trans hl')
  have hclimbs := h holder hholder
  cases hcode : holder.code with
  | pure a =>
    rw [hcode, Code.Climbs] at hclimbs
    rw [hclimbs] at hheld
    cases hheld
  | acquire m k =>
    rw [hcode] at hclimbs
    have hlt := hclimbs.1 l hheld
    have hm : m ∈ wanted := hmem hholder (by rw [hcode]; rfl)
    exact absurd (hmax hm hlt.le) (not_le_of_gt hlt)
  | release m k =>
    obtain ⟨l', hl', -⟩ := hwaits hholder (by simp [hcode])
    rw [hcode] at hl'
    cases hl'
  | act f k =>
    obtain ⟨l', hl', -⟩ := hwaits hholder (by simp [hcode])
    rw [hcode] at hl'
    cases hl'

/-- What the threads still have to do. -/
def codes (s : Lockers σ L α) : Multiset (Code σ L α) := s.threads.map Locker.code

/-- A statement leaves less to do. -/
theorem step_cutExpand (hstep : s.step i = some t) :
    Relation.CutExpand Code.Rest t.codes s.codes := by
  have hset {th th' : Locker σ L α} (hi : s.threads[i]? = some th)
      (hrest : Code.Rest th'.code th.code) {shared : Option σ} :
      Relation.CutExpand Code.Rest (codes ⟨shared, s.threads.set i th'⟩) s.codes := by
    refine ⟨{th'.code}, th.code, fun c hc => ?_, ?_⟩
    · rw [Multiset.mem_singleton.mp hc]
      exact hrest
    · have hperm := (set_append_perm th' hi).map Locker.code
      rw [List.map_append, List.map_append] at hperm
      exact Multiset.coe_eq_coe.mpr hperm
  obtain ⟨x, held, -, hstep⟩ := step_stepped hstep
  cases hstep with
  | acquire hi hfree => exact hset hi (.acquire _ _)
  | release hi => exact hset hi (.release _ _)
  | act hi => exact hset hi (.act _ _ x)

/-- From every state there is a run after which all threads have their values, or the process
has crashed. -/
theorem exists_finished (h : s.Climbing rank) :
    ∃ is t, run step s is = some t ∧ (t.shared = none ∨ t.Finished) := by
  induction hcodes : s.codes using Code.rest_wellFounded.cutExpand.induction generalizing s with
  | _ codes ih =>
    cases hx : s.shared with
    | none => exact ⟨[], s, rfl, Or.inl hx⟩
    | some x =>
      by_cases hfin : s.Finished
      · exact ⟨[], s, rfl, Or.inr hfin⟩
      · obtain ⟨i, t, ht⟩ := exists_step h hx hfin
        obtain ⟨is, u, hu, hend⟩ :=
          ih t.codes (hcodes ▸ step_cutExpand ht) (step_climbing h ht) rfl
        exact ⟨i :: is, u, run_cons_eq_some.mpr ⟨t, ht, hu⟩, hend⟩

end Climbing

/-! ### What the locks protect -/

section Keeping

variable {A : Agreement σ L} {Q : α → List L → σ → Prop} {s t : Lockers σ L α} {i : Nat}

/-- No lock is in two threads' hands, and every thread is safe. -/
structure Keeping (A : Agreement σ L) (Q : α → List L → σ → Prop) (s : Lockers σ L α) (x : σ) :
    Prop where
  shared : s.shared = some x
  exclusive : s.threads.Pairwise fun t u => t.held.Disjoint u.held
  safe : ∀ t ∈ s.threads, t.code.Safe A Q t.held x

theorem start_keeping {x : σ} {codes : List (Code σ L α)} (h : ∀ c ∈ codes, c.Safe A Q [] x) :
    (start x codes).Keeping A Q x where
  shared := rfl
  exclusive := by
    rw [start, List.pairwise_map]
    exact List.pairwise_of_forall fun _ _ => List.disjoint_nil_left _
  safe := by
    intro t ht
    obtain ⟨c, hc, rfl⟩ := List.mem_map.mp ht
    exact h c hc

/-- A statement keeps the threads safe and does what is agreed on, as every other thread sees
it. -/
theorem step_keeping {x : σ} (h : s.Keeping A Q x) (hstep : s.step i = some t) :
    ∃ y, t.Keeping A Q y ∧ A.always x y ∧ ∀ u ∈ s.threads.eraseIdx i, A.Seen u.held x y := by
  have hsymm (a b : Locker σ L α) (hab : a.held.Disjoint b.held) : b.held.Disjoint a.held :=
    hab.symm
  obtain ⟨x', held, hx', hstep⟩ := step_stepped hstep
  obtain rfl : x' = x := Option.some.inj (hx'.symm.trans h.shared)
  cases hstep with
  | @acquire l k hi hfree =>
    refine ⟨x', ⟨rfl, ?_, ?_⟩, A.always_refl x', fun u _ => A.seen_refl⟩
    · refine pairwise_set hsymm h.exclusive fun u hu => ?_
      have hdisj := pairwise_eraseIdx hsymm h.exclusive hi u hu
      refine List.disjoint_cons_left.mpr ⟨fun hl => hfree ?_, hdisj⟩
      exact ⟨u, List.mem_of_mem_eraseIdx hu, hl⟩
    · exact forall_mem_set h.safe (h.safe _ (List.mem_of_getElem? hi) x' A.seen_refl)
  | @release l k hi =>
    refine ⟨x', ⟨rfl, ?_, ?_⟩, A.always_refl x', fun u _ => A.seen_refl⟩
    · refine pairwise_set hsymm h.exclusive fun u hu => ?_
      have hdisj := pairwise_eraseIdx hsymm h.exclusive hi u hu
      exact List.disjoint_of_subset_left List.erase_subset hdisj
    · exact forall_mem_set h.safe (h.safe _ (List.mem_of_getElem? hi) x' A.seen_refl)
  | @act f k hi =>
    obtain ⟨y, hy, hallowed, hsafe⟩ := h.safe _ (List.mem_of_getElem? hi) x' A.seen_refl
    have hseen (u : Locker σ L α) (hu : u ∈ s.threads.eraseIdx i) : A.Seen u.held x' y := by
      have hdisj := pairwise_eraseIdx hsymm h.exclusive hi u hu
      exact hallowed.seen fun l hl hl' => hdisj hl' hl
    refine ⟨y, ⟨hy, ?_, ?_⟩, hallowed.1, hseen⟩
    · refine pairwise_set hsymm h.exclusive fun u hu => ?_
      have hdisj := pairwise_eraseIdx hsymm h.exclusive hi u hu
      exact hdisj
    · refine forall_mem_set_of_eraseIdx (fun u hu => ?_) hsafe
      exact (h.safe u (List.mem_of_mem_eraseIdx hu)).of_seen (hseen u hu)

end Keeping

end Lockers

end Xupeng
