import Mathlib.Algebra.Group.Nat.Defs
import Xupeng.Core.Run
import Xupeng.Models.Timer.Interpretation.Operations

/-!
# The timers that expire

`listExpiredCb` looks for the end of the expired timers with a timer made for the
purpose, whose address is on either side of the addresses in the set, and goes on
over the timers with the very deadline. It takes out the timers that are due and no
others, and puts those that recur back.
-/

namespace Xupeng.TimerManager

variable {C : Type} {m : TimerManager C} {p addr : Nat} {now : UInt64}

/-- A timer of the set is due when its deadline has come, and when the clock has rolled over. -/
def Due (m : TimerManager C) (now : UInt64) (p : Nat) : Prop :=
  p ∈ m.timers ∧ ((m.detectClockRollover now).2 = true ∨ (m.deref p).next ≤ now)

/-- What has become of a timer in `t`, after the timers due in `m` have been collected. -/
structure Collected (m : TimerManager C) (now : UInt64) (t : TimerManager C) (p : Nat) : Prop where
  /-- A timer that fires once is out of the set and has lost its callback. -/
  once : m.Due now p → (m.deref p).recurring = false →
    p ∉ t.timers ∧ t.deref p = { m.deref p with cb := none }
  /-- A recurring timer is in the set with its next deadline. -/
  again : m.Due now p → (m.deref p).recurring = true →
    p ∈ t.timers ∧ t.deref p = { m.deref p with next := now + (m.deref p).ms }
  /-- All other timers are as they were. -/
  other : ¬ m.Due now p → (p ∈ t.timers ↔ p ∈ m.timers) ∧ t.deref p = m.deref p

/-- Every timer is collected exactly if it is due. -/
theorem Ordered.collected (h : m.Ordered []) (addr : Nat) (now : UInt64) (p : Nat) :
    m.Collected now (m.listExpiredCb addr now).1 p := by
  have hdue : p ∈ m.expired addr now ↔ m.Due now p := h.mem_expired_iff
  constructor
  · intro hp hrec
    constructor
    · intro hmem
      have hyes := (h.mem_listExpiredCb.mp hmem).2 (hdue.mpr hp)
      rw [hrec] at hyes
      cases hyes
    · rw [h.deref_listExpiredCb, if_pos (hdue.mpr hp), fired, if_neg (by simp [hrec])]
  · intro hp hrec
    constructor
    · exact h.mem_listExpiredCb.mpr ⟨hp.1, fun _ => hrec⟩
    · rw [h.deref_listExpiredCb, if_pos (hdue.mpr hp), fired, if_pos hrec]
  · intro hp
    have hnot : p ∉ m.expired addr now := fun hexp => hp (hdue.mp hexp)
    constructor
    · rw [h.mem_listExpiredCb]
      exact and_iff_left fun hexp => absurd hexp hnot
    · rw [h.deref_listExpiredCb, if_neg hnot]

/-- A list of the timers that are due, each of them once and none after one with a later
deadline. -/
structure Lists (m : TimerManager C) (now : UInt64) (ps : List Nat) : Prop where
  mem_iff : ∀ p, p ∈ ps ↔ m.Due now p
  once : ps.Nodup
  increasing : ps.Pairwise fun p q => (m.deref p).next ≤ (m.deref q).next

/-- The timers that are due are listed in their order. -/
theorem Ordered.lists_expired (h : m.Ordered []) (addr : Nat) (now : UInt64) :
    m.Lists now (m.expired addr now) := by
  have hsub : (m.expired addr now).Sublist m.timers := List.take_sublist _ _
  constructor
  · intro p
    exact h.mem_expired_iff
  · exact h.increasing.nodup.sublist hsub
  · refine List.Pairwise.imp (fun {p q} hle => ?_) (h.deadlines.sublist hsub)
    exact UInt64.le_iff_toNat_le.mpr hle

/-- In every state whose set is in order, whatever the clock reading and wherever the timer made
for the search lies, `listExpiredCb` outputs the callbacks of the timers that are due, in the order
of their deadlines, and does to each timer what it should. The set stays in order, and the deadlines
that do not wrap around are those of the integers. -/
theorem expires_what_is_due (h : m.Ordered []) (addr : Nat) (now : UInt64) :
    (∃ ps, m.Lists now ps ∧ (m.listExpiredCb addr now).2 = ps.map fun p => (m.deref p).cb) ∧
      (∀ p, m.Collected now (m.listExpiredCb addr now).1 p) ∧
      (m.listExpiredCb addr now).1.Ordered [] ∧
      ∀ p, m.Due now p → (m.deref p).recurring = true →
        now.toNat + (m.deref p).ms.toNat < 2 ^ 64 →
        ((m.listExpiredCb addr now).1.deref p).next.toNat =
          now.toNat + (m.deref p).ms.toNat := by
  refine ⟨⟨m.expired addr now, h.lists_expired addr now, h.listExpiredCb_cbs⟩,
    h.collected addr now, h.listExpiredCb, fun p hp hrec hlt => ?_⟩
  rw [((h.collected addr now p).again hp hrec).2]
  exact (UInt64.toNat_add _ _).trans (Nat.mod_eq_of_lt hlt)

/-- Three timers with one deadline, at addresses on both sides of `32`, and a later one. -/
def sameDeadline : List (Op Nat) :=
  [.addTimer 48 1000 50 0 false, .addTimer 16 1010 40 1 true, .addTimer 32 1020 30 2 false,
    .addTimer 64 1020 31 3 false]

/-- Three timers, two of which are due at the same time. -/
theorem expires_what_is_due_sameDeadline :
    (run step (new 1000) sameDeadline).map (fun m => (m.listExpiredCb 32 1050).2) =
        some [some 1, some 2, some 0] ∧
      ∀ m, run step (new 1000) sameDeadline = some m →
        ∀ p, m.Collected 1050 (m.listExpiredCb 32 1050).1 p := by
  refine ⟨rfl, fun m hm => ?_⟩
  have hsound : m.Sound [] :=
    run_invariant (I := fun m => m.Sound []) (fun _ _ _ h hs => h.step hs) (new_sound 1000) hm
  exact (expires_what_is_due hsound.ordered 32 1050).2.1

end Xupeng.TimerManager
