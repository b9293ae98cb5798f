import Xupeng.Models.Timer.Native.State

/-!
# Which timers are pending

Only `addTimer` makes the set larger. The operations on a timer take it out of the
set before they put it back, and reading the next deadline leaves the set alone.
-/

namespace Xupeng.TimerManager

variable {C : Type} {m : TimerManager C}

/-! ## Reading the next deadline -/

theorem getNextTimer_timers (now : UInt64) (m : TimerManager C) :
    (m.getNextTimer now).1.timers = m.timers := by
  unfold getNextTimer
  dsimp only
  split <;> rfl

theorem getNextTimer_tickled (now : UInt64) (m : TimerManager C) :
    (m.getNextTimer now).1.tickled = false := by
  unfold getNextTimer
  dsimp only
  split <;> rfl

/-- A time span is less than `~0ull` when the clock is not at zero. -/
theorem sub_ne_infinite {now next : UInt64} (hnow : now ≠ 0) (h : now ≤ next) :
    next - now ≠ infinite := by
  intro heq
  have hval := congrArg UInt64.toNat heq
  rw [UInt64.toNat_sub_of_le _ _ h] at hval
  have hpos : now.toNat ≠ 0 := fun h0 => hnow (UInt64.toNat_inj.mp h0)
  have hlt := next.toNat_lt
  have hmax : infinite.toNat = 2 ^ 64 - 1 := rfl
  omega

/-- With a clock that is not at zero, `~0ull` says that there are no timers. -/
theorem timers_eq_nil {now : UInt64} (hnow : now ≠ 0) {m : TimerManager C}
    (h : (m.getNextTimer now).2 = infinite) : m.timers = [] := by
  unfold getNextTimer at h
  dsimp only at h
  split at h
  · assumption
  · exfalso
    split at h
    · cases h
    · rename_i hlt
      exact sub_ne_infinite hnow (UInt64.le_of_lt (UInt64.not_le.mp hlt)) h

/-! ## The operations on a timer -/

theorem find_lt {p i : Nat} (h : m.find p = some i) : i < m.timers.length := by
  unfold find at h
  dsimp only at h
  split at h
  · rename_i hq
    split at h
    · cases h
    · cases h
      exact (List.getElem?_eq_some_iff.mp hq).1
  · cases h

theorem length_insert_le (p : Nat) (m : TimerManager C) :
    (m.insert p).1.timers.length ≤ m.timers.length + 1 := by
  unfold insert
  dsimp only
  split
  · split
    · dsimp only
      rw [List.length_insertIdx]
      split <;> omega
    · exact Nat.le_succ _
  · simp

theorem addTimerLocked_timers (p : Nat) (m : TimerManager C) :
    (m.addTimerLocked p).1.timers = (m.insert p).1.timers := by
  unfold addTimerLocked
  dsimp only
  split <;> rfl

/-- A timer that is taken out and put back does not make the set larger. -/
theorem length_reinsert_le {p i : Nat} (h : m.find p = some i) (q : Nat) (f : Timer C → Timer C) :
    (((m.erase i).modify q f).insert p).1.timers.length ≤ m.timers.length := by
  have hi := find_lt h
  have hinsert := length_insert_le p ((m.erase i).modify q f)
  have herase : ((m.erase i).modify q f).timers.length = m.timers.length - 1 :=
    List.length_eraseIdx_of_lt hi
  omega

theorem length_cancel_le {p : Nat} {r : TimerManager C × Bool} (h : m.cancel p = some r) :
    r.1.timers.length ≤ m.timers.length := by
  unfold cancel at h
  split at h
  · obtain ⟨i, -, rfl⟩ := Option.map_eq_some_iff.mp h
    exact List.length_eraseIdx_le _ i
  · cases h
    exact Nat.le_refl _

theorem length_refresh_le (p : Nat) (now : UInt64) (m : TimerManager C) :
    (m.refresh p now).1.timers.length ≤ m.timers.length := by
  unfold refresh
  split
  · exact Nat.le_refl _
  · split
    · exact Nat.le_refl _
    · rename_i hi
      exact length_reinsert_le hi _ _

theorem length_reset_le (p : Nat) (ms : UInt64) (from_now : Bool) (now : UInt64)
    (m : TimerManager C) : (m.reset p ms from_now now).1.timers.length ≤ m.timers.length := by
  unfold reset
  split
  · exact Nat.le_refl _
  · split
    · exact Nat.le_refl _
    · split
      · exact Nat.le_refl _
      · rename_i hi
        dsimp only
        rw [addTimerLocked_timers]
        exact length_reinsert_le hi _ _

end Xupeng.TimerManager
