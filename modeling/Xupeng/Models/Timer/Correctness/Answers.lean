import Xupeng.Core.Run
import Xupeng.Models.Timer.Interpretation.Operations

/-!
# The answers of the timer operations

`cancel`, `refresh` and `reset` answer whether the timer was pending. The first two
always tell the truth. `reset` with the period that the timer has, not from now,
answers before it looks at the timer, and says that a timer is armed that has been
cancelled or has fired.
-/

namespace Xupeng.TimerManager

variable {C : Type} {m : TimerManager C}

/-- The answer of a call is true exactly when the timer was pending, and a call that answers false
has changed nothing. -/
structure Truthful (m : TimerManager C) (p : Nat) (r : TimerManager C × Bool) : Prop where
  answer : r.2 = true ↔ p ∈ m.timers
  unchanged : r.2 = false → r.1 = m

/-- The call is answered by the first lines of `reset`. -/
def Shortcut (m : TimerManager C) (p : Nat) (ms : UInt64) (from_now : Bool) : Prop :=
  ms = (m.deref p).ms ∧ from_now = false

/-- The answers of the operations on the timer `p`. -/
structure Answers (m : TimerManager C) (p : Nat) : Prop where
  cancel : ∃ r, m.cancel p = some r ∧ Truthful m p r
  refresh : ∀ now, Truthful m p (m.refresh p now)
  reset : ∀ ms from_now now, Truthful m p (m.reset p ms from_now now) ↔
    p ∈ m.timers ∨ ¬ m.Shortcut p ms from_now
  /-- A `reset` that answers false has changed nothing, the shortcut included. -/
  unchanged : ∀ ms from_now now, (m.reset p ms from_now now).2 = false →
    (m.reset p ms from_now now).1 = m

/-- A timer that is armed is reported so. -/
theorem truthful_true {p : Nat} {t : TimerManager C} (hp : p ∈ m.timers) :
    Truthful m p (t, true) := by
  constructor
  · exact iff_of_true rfl hp
  · intro hfalse
    cases hfalse

/-- So is one that is not, and nothing is changed. -/
theorem truthful_false {p : Nat} (hp : p ∉ m.timers) : Truthful m p (m, false) := by
  constructor
  · exact iff_of_false Bool.false_ne_true hp
  · intro _
    rfl

/-- A timer that is not in the set has no callback. -/
theorem Sound.isSome_eq_false (h : m.Sound []) {p : Nat} (hp : p ∉ m.timers) :
    (m.deref p).cb.isSome = false := by
  rw [h.mem_iff, Bool.not_eq_true] at hp
  exact hp

/-- A timer can always be cancelled, and the answer is right. -/
theorem Sound.cancel_truthful (h : m.Sound []) (p : Nat) :
    ∃ r, m.cancel p = some r ∧ Truthful m p r := by
  by_cases hp : p ∈ m.timers
  · obtain ⟨i, -, hcancel⟩ := h.cancel_of_isSome (h.mem_iff.mp hp)
    exact ⟨_, hcancel, truthful_true hp⟩
  · exact ⟨_, cancel_of_isNone (h.isSome_eq_false hp), truthful_false hp⟩

/-- The answer of `refresh` is right. -/
theorem Sound.refresh_truthful (h : m.Sound []) (p : Nat) (now : UInt64) :
    Truthful m p (m.refresh p now) := by
  by_cases hp : p ∈ m.timers
  · obtain ⟨i, -, hrefresh⟩ := h.refresh_of_isSome (h.mem_iff.mp hp) now
    rw [hrefresh]
    exact truthful_true hp
  · rw [refresh_of_isNone (h.isSome_eq_false hp)]
    exact truthful_false hp

/-- The shortcut answers true whatever the state of the timer. -/
theorem reset_of_shortcut {p : Nat} {ms : UInt64} {from_now : Bool}
    (hms : m.Shortcut p ms from_now) (now : UInt64) :
    m.reset p ms from_now now = (m, true) := by
  obtain ⟨hms, rfl⟩ := hms
  exact if_pos ⟨hms, rfl⟩

/-- So is that of `reset`, but for its shortcut. -/
theorem Sound.reset_truthful (h : m.Sound []) {p : Nat} {ms : UInt64} {from_now : Bool}
    (hms : ¬ m.Shortcut p ms from_now) (now : UInt64) :
    Truthful m p (m.reset p ms from_now now) := by
  have hlong : ¬ (ms = (m.deref p).ms ∧ !from_now) := by
    intro hshort
    exact hms ⟨hshort.1, by simpa using hshort.2⟩
  by_cases hp : p ∈ m.timers
  · obtain ⟨i, -, -, hreset⟩ := h.reset_of_isSome (h.mem_iff.mp hp) hlong now
    rw [hreset]
    exact truthful_true hp
  · have hnone : (m.deref p).cb.isNone = true := by
      simpa using h.isSome_eq_false hp
    rw [TimerManager.reset, if_neg hlong, if_pos hnone]
    exact truthful_false hp

theorem Sound.answers (h : m.Sound []) (p : Nat) : m.Answers p where
  cancel := h.cancel_truthful p
  refresh := h.refresh_truthful p
  reset := by
    intro ms from_now now
    by_cases hms : m.Shortcut p ms from_now
    · rw [reset_of_shortcut hms]
      constructor
      · intro htruthful
        exact Or.inl (htruthful.answer.mp rfl)
      · intro hcond
        exact truthful_true (hcond.resolve_right fun hnot => hnot hms)
    · exact iff_of_true (h.reset_truthful hms now) (Or.inr hms)
  unchanged := by
    intro ms from_now now
    by_cases hms : m.Shortcut p ms from_now
    · rw [reset_of_shortcut hms]
      exact fun _ => rfl
    · exact (h.reset_truthful hms now).unchanged

/-- After any operations, `cancel` and `refresh` tell the truth about every timer, and `reset` does
exactly when the timer is pending or the call is not answered by the shortcut. -/
theorem answers_truthful_iff (now : UInt64) (ops : List (Op C)) :
    Along step (fun m => ∀ p, m.Answers p) (new now) ops :=
  along_of_invariant (I := fun m => m.Sound []) (fun _ _ _ h hs => h.step hs)
    (fun _ h => h.answers) (new_sound now) ops

/-- A timer with a period of 50 ms, and what ends it. -/
def spentTimer (last : Op Unit) : List (Op Unit) := [.addTimer 16 1000 50 () false, last]

/-- `reset` to the same period answers that a cancelled timer is armed, and one that has fired. -/
theorem reset_untruthful_spentTimer :
    (∃ m, run step (new 1000) (spentTimer (.cancel 0)) = some m ∧ 0 < m.heap.length ∧
        0 ∉ m.timers ∧ (m.reset 0 50 false 1050).2 = true) ∧
      ∃ m, run step (new 1000) (spentTimer (.listExpiredCb 32 1050)) = some m ∧
        0 < m.heap.length ∧ 0 ∉ m.timers ∧ (m.reset 0 50 false 1050).2 = true := by
  constructor
  · exact ⟨_, rfl, Nat.zero_lt_one, List.not_mem_nil, rfl⟩
  · exact ⟨_, rfl, Nat.zero_lt_one, List.not_mem_nil, rfl⟩

end Xupeng.TimerManager
