import Mathlib.Data.List.Perm.Basic
import Xupeng.Core.History
import Xupeng.Models.Scheduler.Interpretation.Counting
import Xupeng.Models.Scheduler.Interpretation.Queue

/-!
# The accounts of the scheduler

Entries are numbered in the order in which they are pushed. The history of a run has
the entries by their numbers, the numbers of those in the queue, and the numbers of
those that have been taken out. At every moment each number is in one of the two
lists, once, and the counter of active threads is the number of workers between a
dequeue and its decrement.
-/

namespace Xupeng.Scheduler.System

variable {C : Type} {s t : System C} {a : Step C}

/-- The entries that have been pushed, and where they are. -/
structure Ledger (C : Type) where
  /-- Every entry that has been pushed; its index is its number. -/
  pushed : List (FiberAndThread C)
  /-- The numbers of the entries in the queue, in the order of the queue. -/
  queued : List Nat
  /-- The numbers of the entries that have been dequeued. -/
  dequeued : List Nat

namespace Ledger

def empty : Ledger C := ⟨[], [], []⟩

/-- The ledger after a step from `s`. -/
def record (s : System C) (a : Step C) (_ : System C) (h : Ledger C) : Ledger C :=
  let taken := (s.takes a).map Prod.fst
  { pushed := h.pushed ++ s.pushes a
    queued := remaining taken h.queued ++ List.range' h.pushed.length (s.pushes a).length
    dequeued := h.dequeued ++ (taken.bind (h.queued[·]?)).toList }

end Ledger

/-- The counter is right, every entry that was pushed is in the queue or was dequeued once, and a
dequeue takes the first entry that the worker may take. -/
structure Accounted (x : System C × Ledger C) : Prop where
  active : x.1.scheduler.activeThreadCount = x.1.workers.countP (·.pc.active)
  nonneg : 0 ≤ x.1.scheduler.activeThreadCount
  nonNull : ∀ ft ∈ x.2.pushed, nonNull ft = true
  queue : x.1.scheduler.queue.map some = x.2.queued.map (x.2.pushed[·]?)
  inOrder : x.2.queued.Pairwise (· < ·)
  once : (x.2.queued ++ x.2.dequeued).Perm (List.range x.2.pushed.length)
  first : ∀ a k ft, x.1.takes a = some (k, ft) → ∃ i, a = .worker i .advance ∧
    x.1.scheduler.queue[k]? = some ft ∧ x.1.scheduler.Eligible i ft ∧
      ∀ j < k, ∀ ft', x.1.scheduler.queue[j]? = some ft' → ¬ x.1.scheduler.Eligible i ft'

/-! ## The ledger -/

/-- The part of the accounts that the ledger keeps. -/
structure Numbered (queue : List (FiberAndThread C)) (h : Ledger C) : Prop where
  nonNull : ∀ ft ∈ h.pushed, Scheduler.nonNull ft = true
  queue : queue.map some = h.queued.map (h.pushed[·]?)
  inOrder : h.queued.Pairwise (· < ·)
  once : (h.queued ++ h.dequeued).Perm (List.range h.pushed.length)

variable {queue : List (FiberAndThread C)} {h : Ledger C}

/-- What is in the queue has been pushed. -/
theorem Numbered.lt_length (hn : Numbered queue h) {n : Nat} (hmem : n ∈ h.queued) :
    n < h.pushed.length :=
  List.mem_range.mp (hn.once.subset (List.mem_append_left _ hmem))

/-- An entry is taken out of the queue. -/
theorem Numbered.take (hn : Numbered queue h) {k : Nat} (hk : k < queue.length) :
    Numbered (queue.eraseIdx k)
      { h with
        queued := h.queued.eraseIdx k
        dequeued := h.dequeued ++ (h.queued[k]?).toList } := by
  have hlen : queue.length = h.queued.length := by
    have := congrArg List.length hn.queue
    rwa [List.length_map, List.length_map] at this
  have hk' : k < h.queued.length := hlen ▸ hk
  refine ⟨hn.nonNull, ?_, hn.inOrder.sublist (List.eraseIdx_sublist _ k), ?_⟩
  · dsimp only
    rw [← List.eraseIdx_map, ← List.eraseIdx_map, hn.queue]
  · dsimp only
    rw [List.getElem?_eq_getElem hk', Option.toList_some]
    refine List.Perm.trans ?_ hn.once
    have hperm := (List.getElem_cons_eraseIdx_perm hk').append_right h.dequeued
    refine List.Perm.trans ?_ hperm
    rw [← List.append_assoc, List.cons_append]
    exact List.perm_append_singleton _ _

/-- Entries are pushed at the end. -/
theorem Numbered.push (hn : Numbered queue h) {fts : List (FiberAndThread C)}
    (hfts : ∀ ft ∈ fts, Scheduler.nonNull ft = true) :
    Numbered (queue ++ fts)
      { h with
        pushed := h.pushed ++ fts
        queued := h.queued ++ List.range' h.pushed.length fts.length } := by
  refine ⟨fun ft hft => ?_, ?_, ?_, ?_⟩
  · rcases List.mem_append.mp hft with hold | hnew
    · exact hn.nonNull ft hold
    · exact hfts ft hnew
  · dsimp only
    rw [List.map_append, List.map_append, hn.queue]
    congr 1
    · refine List.map_congr_left fun n hmem => ?_
      exact (List.getElem?_append_left (hn.lt_length hmem)).symm
    · refine List.ext_getElem? fun i => ?_
      rw [List.getElem?_map, List.getElem?_map]
      by_cases hi : i < fts.length
      · rw [List.getElem?_range' hi, Option.map_some, Nat.one_mul,
          List.getElem?_append_right (Nat.le_add_right _ _), Nat.add_sub_cancel_left,
          List.getElem?_eq_getElem hi]
        rfl
      · rw [List.getElem?_eq_none (Nat.le_of_not_lt hi),
          List.getElem?_eq_none (by rw [List.length_range']; exact Nat.le_of_not_lt hi)]
        rfl
  · refine List.pairwise_append.mpr ⟨hn.inOrder, List.pairwise_lt_range', fun m hm n hmem => ?_⟩
    have hm' := hn.lt_length hm
    have hmem' := List.mem_range'_1.mp hmem
    omega
  · dsimp only
    rw [List.length_append, List.range_add, ← List.range'_eq_map_range, List.append_assoc]
    have hswap : (List.range' h.pushed.length fts.length ++ h.dequeued).Perm
        (h.dequeued ++ List.range' h.pushed.length fts.length) := List.perm_append_comm
    refine (hswap.append_left h.queued).trans ?_
    rw [← List.append_assoc]
    exact hn.once.append_right _

theorem pushes_nonNull (s : System C) (a : Step C) : ∀ ft ∈ s.pushes a, nonNull ft = true := by
  intro ft hft
  unfold pushes at hft
  split at hft
  · exact (List.mem_filter.mp hft).2
  · exact (List.mem_filter.mp hft).2
  · rename_i i
    cases hw : s.workers[i]? with
    | none => simp [hw] at hft
    | some w =>
      simp only [hw, Option.map_some, Option.getD_some, Worker.pushes] at hft
      split at hft
      · rw [List.mem_singleton.mp hft]
        rfl
      · cases hft
  · cases hft

/-- Every step keeps the ledger in step with the queue. -/
theorem step_numbered (hn : Numbered s.scheduler.queue h) (hs : s.step a = some t) :
    Numbered t.scheduler.queue (Ledger.record s a t h) := by
  rw [step_queue hs]
  unfold Ledger.record
  have hpush := pushes_nonNull s a
  cases htakes : s.takes a with
  | none =>
    have hstep := hn.push hpush
    simpa [remaining] using hstep
  | some x =>
    obtain ⟨k, ft⟩ := x
    obtain ⟨i, -, hk, -⟩ := takes_first htakes
    have hstep := (hn.take (List.getElem?_eq_some_iff.mp hk).1).push hpush
    exact hstep

/-- Whatever the workers and their tasks do, in every state of a run the accounts are right. -/
theorem scheduler_accounted (threads : Nat) (use_caller : Bool) (as : List (Step C)) :
    Along (recorded step Ledger.record) Accounted (init threads use_caller, .empty) as := by
  refine along_of_invariant
    (I := fun x => x.1.Counted ∧ Numbered x.1.scheduler.queue x.2) ?_ ?_ ?_ as
  · rintro x a y ⟨hcount, hn⟩ hr
    exact of_recorded hr fun t hs => ⟨step_counted hcount hs, step_numbered hn hs⟩
  · rintro ⟨s, h⟩ ⟨hcount, hn⟩
    refine ⟨hcount, ?_, hn.nonNull, hn.queue, hn.inOrder, hn.once, fun a k ft => takes_first⟩
    rw [show s.scheduler.activeThreadCount = _ from hcount]
    exact Int.natCast_nonneg _
  · exact ⟨init_counted threads use_caller, nofun, rfl, List.Pairwise.nil, List.Perm.refl _⟩

end Xupeng.Scheduler.System
