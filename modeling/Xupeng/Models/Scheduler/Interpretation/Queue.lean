import Xupeng.Models.Scheduler.Interpretation.Statements

/-!
# What the steps do to the queue

A step takes at most one entry out of the queue, by the search of a worker, and
pushes entries at its end: those of a call of `schedule` that are not null, or the
fiber that a worker puts back.
-/

namespace Xupeng.Scheduler

variable {C A I : Type} {s s' : Scheduler C} {w w' : Worker C A I} {thread : Nat}

/-- The entry is not null. -/
def nonNull (ft : FiberAndThread C) : Bool := ft.fiber.isSome || ft.cb.isSome

/-- The entries that a statement of the loop pushes. -/
def Worker.pushes (w : Worker C A I) : List (FiberAndThread C) :=
  match w.pc with
  | .requeue f _ => [⟨some f, none, none⟩]
  | _ => []

/-- The entry that the next statement of the loop takes, with its position. -/
def Worker.takes (thread : Nat) (s : Scheduler C) (w : Worker C A I) :
    Option (Nat × FiberAndThread C) :=
  match w.pc, s.search thread 0 s.queue with
  | .search, .entry k ft => some (k, ft)
  | _, _ => none

theorem Worker.takes_of_ne (h : w.pc ≠ .search) : w.takes thread s = none := by
  unfold Worker.takes
  split
  · rename_i hpc _
    exact absurd hpc h
  · rfl

/-- What is taken is what the search has found. -/
theorem Worker.takes_eq_some {k : Nat} {ft : FiberAndThread C}
    (h : w.takes thread s = some (k, ft)) :
    w.pc = .search ∧ s.search thread 0 s.queue = .entry k ft := by
  unfold Worker.takes at h
  split at h
  · rename_i hpc hfound
    cases h
    exact ⟨hpc, hfound⟩
  · cases h

/-- The entry that is taken is the first one that the thread may take. -/
theorem Worker.takes_first {k : Nat} {ft : FiberAndThread C}
    (h : w.takes thread s = some (k, ft)) :
    s.queue[k]? = some ft ∧ s.Eligible thread ft ∧
      ∀ j < k, ∀ ft', s.queue[j]? = some ft' → ¬ s.Eligible thread ft' := by
  obtain ⟨-, hfound⟩ := Worker.takes_eq_some h
  obtain ⟨j, hk, hj, helig, hfirst⟩ := search_eq_entry hfound
  obtain rfl : k = j := by omega
  exact ⟨hj, helig, hfirst⟩

/-- The queue without the entry at a position. -/
def remaining (taken : Option Nat) {α : Type} (queue : List α) : List α :=
  match taken with
  | some k => queue.eraseIdx k
  | none => queue

variable [Inhabited A] [Inhabited I]

/-- A statement takes one entry out and puts others in. -/
theorem Statement.queue_eq (h : Statement thread s w s' w') :
    s'.queue = remaining ((w.takes thread s).map Prod.fst) s.queue ++ w.pushes := by
  -- a statement that neither searches nor pushes
  have hkeep (hsearch : w.pc ≠ .search) (hpush : w.pushes = []) (hqueue : s'.queue = s.queue) :
      s'.queue = remaining ((w.takes thread s).map Prod.fst) s.queue ++ w.pushes := by
    rw [Worker.takes_of_ne hsearch, hpush, hqueue, List.append_nil]
    rfl
  cases h with
  | aborts fails =>
    cases fails with
    | entry pc found => simp [Worker.takes, Worker.pushes, remaining, pc, found, fail]
    | reset pc | swapIn pc | idle pc => exact hkeep (by simp [pc]) (by simp [Worker.pushes, pc]) rfl
  | exhausted pc found => simp [Worker.takes, Worker.pushes, remaining, pc, found]
  | dequeue pc found => simp [Worker.takes, Worker.pushes, remaining, pc, found]
  | requeue pc =>
    simp [Worker.takes_of_ne, Worker.pushes, remaining, pc, schedule]
  | setStopping pc | runFiber pc | resetFiber pc | makeFiber pc | discard pc | skip pc | swapIn pc
  | swapOut pc | swapped pc | ready pc | notReady pc | notEnded pc | recycle pc | ended pc
  | hold pc | exit pc | enterIdle pc | leaveIdle pc =>
    exact hkeep (by simp [pc]) (by simp [Worker.pushes, pc]) rfl

namespace System

/-- The entries that a step pushes. -/
def pushes (s : System C) : Step C → List (FiberAndThread C)
  | .outside a | .worker _ (.act a) => a.entries.filter nonNull
  | .worker i .advance => (s.workers[i]?.map Worker.pushes).getD []
  | _ => []

/-- The entry that a step takes out of the queue, with its position. -/
def takes (s : System C) : Step C → Option (Nat × FiberAndThread C)
  | .worker i .advance => s.workers[i]?.bind (Worker.takes i s.scheduler)
  | _ => none

variable {s t : System C} {a : Step C}

/-- Entries that are not null come to the end. -/
theorem apply_queue {s s' : Scheduler C} {a : Act C} (h : a.apply s = some s') :
    s'.queue = s.queue ++ a.entries.filter nonNull := by
  rcases apply_eq_some h with ⟨cb, rfl, rfl⟩ | ⟨-, rfl⟩
  · exact (List.append_nil _).symm
  · rfl

/-- Every step takes and pushes what the definitions say. -/
theorem step_queue (h : s.step a = some t) :
    t.scheduler.queue =
      remaining ((s.takes a).map Prod.fst) s.scheduler.queue ++ s.pushes a := by
  cases step_stepped h with
  | statement hw hst => simpa [takes, pushes, hw] using hst.queue_eq
  | act hw pc ha => exact apply_queue ha
  | leave hw hl => cases hl <;> exact (List.append_nil _).symm
  | outside ha => exact apply_queue ha
  | idle | answer | stop | setStopping => exact (List.append_nil _).symm

/-- The first entry that the worker may take is taken. -/
theorem takes_first {k : Nat} {ft : FiberAndThread C} (h : s.takes a = some (k, ft)) :
    ∃ i, a = .worker i .advance ∧ s.scheduler.queue[k]? = some ft ∧
      s.scheduler.Eligible i ft ∧ ∀ j < k, ∀ ft', s.scheduler.queue[j]? = some ft' →
        ¬ s.scheduler.Eligible i ft' := by
  unfold takes at h
  split at h
  · rename_i i
    obtain ⟨w, -, hw⟩ := Option.bind_eq_some_iff.mp h
    exact ⟨i, rfl, Worker.takes_first hw⟩
  · cases h

end System

end Xupeng.Scheduler
