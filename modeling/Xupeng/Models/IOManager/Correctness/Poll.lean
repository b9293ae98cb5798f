import Mathlib.Tactic.Common
import Xupeng.Core.Run
import Xupeng.Models.IOManager.Native.Poll
import Xupeng.Models.Timer.Native.Operation

/-!
# How long `idle` waits

`idle` means to wait until the next timer, and for three seconds at the most. It
compares the limit with the time narrowed to an `int`. A time whose low 32 bits are
at least `2 ^ 31` is negative there and so within the limit, and `epoll_wait` takes
a negative timeout for an unbounded one.
-/

namespace Xupeng.IOManager

open TimerManager (infinite)

variable {n : UInt64}

/-! ## Narrowing -/

/-- The narrowed value is the low half of the number, as a signed one. -/
theorem toInt_toInt (n : UInt64) :
    (toInt n).toInt =
      if n.toNat % 2 ^ 32 < 2 ^ 31 then (n.toNat % 2 ^ 32 : Int)
      else (n.toNat % 2 ^ 32 : Int) - 2 ^ 32 := by
  have hcond : (toInt n).toInt =
      if 2 * (n.toNat % 2 ^ 32) < 2 ^ 32 then ((n.toNat % 2 ^ 32 : Nat) : Int)
      else ((n.toNat % 2 ^ 32 : Nat) : Int) - (2 ^ 32 : Nat) :=
    BitVec.toInt_eq_toNat_cond _
  rw [hcond]
  split
  · rw [if_pos (by omega)]
    omega
  · rw [if_neg (by omega)]
    omega

/-- The comparison is of integers with a sign. -/
theorem maxTimeout_lt_toInt : maxTimeout < toInt n ↔ (3000 : Int) < (toInt n).toInt :=
  Int32.lt_iff_toInt_lt

/-! ## The limit -/

/-- What `limit` makes of a number, case by case. -/
theorem limit_cases (n : UInt64) :
    (n = infinite ∨ n.toNat % 2 ^ 32 < 2 ^ 31 ∧ 3000 < n.toNat % 2 ^ 32) ∧ limit n = 3000 ∨
      n ≠ infinite ∧ ¬ maxTimeout < toInt n ∧ limit n = n := by
  unfold limit
  by_cases hinf : n = infinite
  · exact Or.inl ⟨Or.inl hinf, if_neg fun hne => hne hinf⟩
  · rw [if_pos hinf]
    by_cases hmax : maxTimeout < toInt n
    · refine Or.inl ⟨Or.inr ?_, if_pos hmax⟩
      rw [maxTimeout_lt_toInt, toInt_toInt] at hmax
      split at hmax <;> omega
    · exact Or.inr ⟨hinf, hmax, if_neg hmax⟩

theorem limit_limit (n : UInt64) : limit (limit n) = limit n := by
  rcases limit_cases n with ⟨-, hlimit⟩ | ⟨-, -, hlimit⟩
  · rw [hlimit]
    rfl
  · rw [hlimit, hlimit]

/-- Every turn of the loop passes the same timeout. -/
theorem mem_poll_iff (n : UInt64) (rets : List Ret) (timeout : Int32) :
    timeout ∈ (poll n rets).1 ↔ timeout = toInt (limit n) := by
  induction rets generalizing n with
  | nil => exact List.mem_singleton
  | cons ret rets ih =>
    unfold poll
    split
    · rw [List.mem_cons, ih, limit_limit, or_self]
    · exact List.mem_singleton

/-! ## The bounds -/

/-- A timeout between 0 and three seconds that is not longer than the time to the next timer. -/
def Within (next_timeout : UInt64) (timeout : Int32) : Prop :=
  0 ≤ timeout.toInt ∧ timeout.toInt ≤ 3000 ∧ timeout.toInt ≤ next_timeout.toNat

/-- The limit holds if the low half has no sign. -/
theorem within_limit_iff (n : UInt64) :
    Within n (toInt (limit n)) ↔ n = infinite ∨ n.toNat % 2 ^ 32 < 2 ^ 31 := by
  have h3000 : (toInt 3000).toInt = 3000 := rfl
  unfold Within
  rcases limit_cases n with ⟨hcond, hlimit⟩ | ⟨hinf, hmax, hlimit⟩
  · rw [hlimit, h3000]
    rcases hcond with hinf | ⟨hlow, hlarge⟩
    · rw [hinf]
      exact iff_of_true (by decide) (Or.inl rfl)
    · exact iff_of_true (by omega) (Or.inr hlow)
  · rw [maxTimeout_lt_toInt] at hmax
    rw [hlimit, or_iff_right hinf]
    rw [toInt_toInt] at hmax ⊢
    split at hmax
    · rename_i hlow
      rw [if_pos hlow]
      exact iff_of_true (by omega) hlow
    · rename_i hhigh
      rw [if_neg hhigh]
      refine iff_of_false ?_ hhigh
      omega

/-- A timer with the period `n` when the clock reads 0. -/
theorem getNextTimer_eq (n : UInt64) :
    ∃ m : TimerManager Unit,
      run TimerManager.step (.new 0) [.addTimer 16 0 n () false] = some m ∧
        (m.getNextTimer 0).2 = n := by
  refine ⟨_, rfl, ?_⟩
  change (if 0 + n ≤ 0 then 0 else 0 + n - 0) = n
  rw [UInt64.zero_add, UInt64.sub_zero]
  split
  · rename_i hzero
    exact (UInt64.le_zero_iff.mp hzero).symm
  · rfl

/-- Any 64-bit number is the time to the next timer in some state. However often the wait is
interrupted, all timeouts passed to `epoll_wait` are within the bounds exactly when there is no
timer, or the low half of the time is not negative as an `int`. -/
theorem poll_within_iff (next_timeout : UInt64) (rets : List Ret) :
    (∃ (ops : List (TimerManager.Op Unit)) (m : TimerManager Unit),
        run TimerManager.step (.new 0) ops = some m ∧ (m.getNextTimer 0).2 = next_timeout) ∧
      ((∀ timeout ∈ (poll next_timeout rets).1, Within next_timeout timeout) ↔
        next_timeout = infinite ∨ next_timeout.toNat % 2 ^ 32 < 2 ^ 31) := by
  constructor
  · exact ⟨_, getNextTimer_eq next_timeout⟩
  · simp only [mem_poll_iff, forall_eq]
    exact within_limit_iff next_timeout

/-- A timer that is 25 days ahead, `2 ^ 31` milliseconds. -/
def distantTimer : List (TimerManager.Op Unit) :=
  [.addTimer 16 1700000000000 2147483648 () false]

/-- The wait for the distant timer, and the one after a signal, have a negative timeout. -/
theorem poll_unbounded_distantTimer :
    ∃ m, run TimerManager.step (.new 1700000000000) distantTimer = some m ∧
      (m.getNextTimer 1700000000000).2 = 2147483648 ∧
      (poll (m.getNextTimer 1700000000000).2 [.error EINTR]).1 = [-2147483648, -2147483648] :=
  ⟨_, rfl, rfl, rfl⟩

end Xupeng.IOManager
