import Xupeng.Core.Run
import Xupeng.Models.Timer.Interpretation.Operations

/-!
# The set of timers stays in order

After every sequence of operations, at any clock readings, the set is ordered by
the deadlines that its timers have at that moment. It holds a timer exactly when
the timer has a callback, so `cancel` finds the timer that it erases. When an
operation writes a deadline, the timer is not in the set.
-/

namespace Xupeng.TimerManager

variable {C : Type} {m : TimerManager C}

/-- The set is in order, and the operations can rely on it. -/
structure InOrder (m : TimerManager C) : Prop where
  ordered : m.timers.Pairwise fun p q => (m.deref p).less (m.deref q) = true
  once : m.timers.Nodup
  pending : ∀ p, p ∈ m.timers ↔ (m.deref p).cb.isSome
  /-- `cancel` does not erase `end()`. -/
  cancel : ∀ p, (m.cancel p).isSome
  /-- `refresh` and `reset` write the deadline of a timer that they have erased. -/
  erased : ∀ p i, m.find p = some i → p ∉ (m.erase i).timers
  /-- So does the loop of `listExpiredCb`, after it has dealt with the timers `ps`. -/
  fired : ∀ addr now ps p qs, m.expired addr now = ps ++ p :: qs →
    p ∉ ((m.cut addr now).fire now ps).1.timers

/-- The erase of `cancel` never fails. -/
theorem Sound.cancel_isSome (h : m.Sound []) (p : Nat) : (m.cancel p).isSome := by
  cases hp : (m.deref p).cb.isSome with
  | true =>
    obtain ⟨i, -, hcancel⟩ := h.cancel_of_isSome hp
    rw [hcancel]
    rfl
  | false =>
    rw [cancel_of_isNone hp]
    rfl

/-- A timer that is erased is gone. -/
theorem Sound.not_mem_erase (h : m.Sound []) {p i : Nat} (hi : m.find p = some i) :
    p ∉ (m.erase i).timers := by
  by_cases hp : p ∈ m.timers
  · obtain ⟨j, hfind, hj⟩ := h.find_eq_some hp
    cases hfind.symm.trans hi
    exact (h.erase hj).not_mem
  · exact fun hmem => hp (List.mem_of_mem_eraseIdx hmem)

/-- A timer that is fired was taken out before. -/
theorem Sound.not_mem_fire (h : m.Sound []) {addr p : Nat} {now : UInt64} {ps qs : List Nat}
    (hsplit : m.expired addr now = ps ++ p :: qs) :
    p ∉ ((m.cut addr now).fire now ps).1.timers := by
  have hcut : (m.cut addr now).Sound (m.expired addr now ++ []) := h.cut
  rw [hsplit, List.append_nil] at hcut
  exact hcut.fire.not_mem

theorem Sound.inOrder (h : m.Sound []) : m.InOrder where
  ordered := h.increasing.imp fun hlt => (less_iff_key_lt m _ _).mpr hlt
  once := h.increasing.nodup
  pending _ := h.mem_iff
  cancel := h.cancel_isSome
  erased _ _ := h.not_mem_erase
  fired _ _ _ _ _ := h.not_mem_fire

/-- Whatever the operations and their clock readings, the set is in order after each of them. -/
theorem timer_set_in_order (now : UInt64) (ops : List (Op C)) :
    Along step InOrder (new now) ops :=
  along_of_invariant (I := fun m => m.Sound []) (fun _ _ _ h hs => h.step hs)
    (fun _ h => h.inOrder) (new_sound now) ops

end Xupeng.TimerManager
