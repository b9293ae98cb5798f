import Xupeng.Models.Timer.Interpretation.Clock
import Xupeng.Models.Timer.Interpretation.Pending

/-!
# No wakeup of a timer is lost

A thread that waits has read the earliest deadline by `getNextTimer`, which clears
`m_tickled`. While `m_tickled` is false, no deadline is earlier than the one that was
read. Inserting in front sets `m_tickled` and calls `onTimerInsertedAtFront`. The
other two ways of putting a timer back, `refresh` and the loop of `listExpiredCb`,
notify nobody, but they only move a deadline on.
-/

namespace Xupeng.TimerManager

variable {C : Type} {m t : TimerManager C} {op : Op C} {h : Watch}

/-- If a deadline is earlier than what the last `getNextTimer` has seen, then
`onTimerInsertedAtFront` has been called since, or is about to be. -/
def Awake (x : TimerManager C × Watch) : Prop :=
  ∀ p ∈ x.1.timers, (∀ seen ∈ x.2.seen, (x.1.deref p).next < seen) → x.2.notified = true

/-! ## The front of the set -/

/-- A timer that is inserted without a notification is not in front. -/
theorem Sound.exists_next_le {p : Nat} {held : List Nat} (hs : m.Sound (p :: held))
    (htick : m.tickled = false) (hnot : (m.addTimerLocked p).2 = false) :
    ∃ q ∈ m.timers, (m.deref q).next ≤ (m.deref p).next := by
  have hpos : position m.key (m.key p) m.timers ≠ 0 := by
    intro hzero
    simp [TimerManager.addTimerLocked, hs.ordered.insert_eq, hzero, htick] at hnot
  obtain ⟨q, hq, hlt⟩ := exists_lt_of_position_ne_zero hpos
  exact ⟨q, hq, next_le_of_key_lt hlt⟩

/-- The timer in front has the earliest deadline. -/
theorem Sound.head_next_le (hs : m.Sound []) {p : Nat} (hp : p ∈ m.timers) :
    ∃ first, m.timers.head? = some first ∧ (m.deref first).next ≤ (m.deref p).next := by
  cases ht : m.timers with
  | nil => simp [ht] at hp
  | cons first rest =>
    refine ⟨first, rfl, ?_⟩
    have hincreasing := hs.increasing
    rw [ht] at hp hincreasing
    rcases List.mem_cons.mp hp with rfl | hrest
    · exact UInt64.le_refl _
    · exact next_le_of_key_lt ((List.pairwise_cons.mp hincreasing).1 p hrest)

/-! ## The deadlines -/

/-- Without a notification, no pending deadline is earlier than one that was pending before. -/
theorem Timed.next_step (hx : Timed (m, h)) (hf : Forward (m, h) op) (hw : NoWrap (m, h) op)
    (hs : m.step op = some t) (htick : m.tickled = false) (hnot : m.notifies op = false)
    {p : Nat} (hp : (t.deref p).cb.isSome) :
    ∃ q ∈ m.timers, (m.deref q).next ≤ (t.deref p).next := by
  have hderef : t.deref p = m.outcome p op := hx.sound.deref_step hs p
  rw [hderef] at hp ⊢
  have harmed := armed_outcome hp
  generalize m.outcome p op = timer at harmed ⊢
  cases harmed with
  | kept hcb harms => exact ⟨p, hx.sound.mem_iff.mpr hcb, UInt64.le_refl _⟩
  | @made addr now ms cb recurring hpl =>
    obtain ⟨haddr, -⟩ := of_step_addTimer hs
    have happend := hx.sound.append ⟨recurring, ms, now + ms, some cb, addr⟩ rfl haddr
    obtain ⟨q, hq, hle⟩ := happend.exists_next_le htick hnot
    have hne : q ≠ m.heap.length :=
      Nat.ne_of_lt (lt_length_of_isSome_cb (hx.sound.mem_iff.mp hq))
    rw [deref_append, deref_append, if_neg hne, if_pos rfl] at hle
    exact ⟨q, hq, hle⟩
  | @refreshed now hcb =>
    -- the timer was armed before, so the new deadline is not earlier
    have hdeadline : (m.deref p).next.toNat = (h.armed p).toNat + (m.deref p).ms.toNat :=
      hx.deadline p hcb
    have hpast : (h.armed p).toNat ≤ now.toNat :=
      UInt64.le_iff_toNat_le.mp (UInt64.le_trans (hx.past p hcb) (hf now rfl))
    have hlt : now.toNat + (m.deref p).ms.toNat < 2 ^ 64 := hw hcb
    refine ⟨p, hx.sound.mem_iff.mpr hcb, ?_⟩
    rw [UInt64.le_iff_toNat_le, UInt64.toNat_add, Nat.mod_eq_of_lt hlt]
    omega
  | @reset ms from_now now hcb =>
    by_cases hms : ms = (m.deref p).ms ∧ !from_now
    · have hfrom : from_now = false := by simpa using hms.2
      have heq : (rearmed ms from_now now (m.deref p)).next = (m.deref p).next := by
        simp [rearmed, hms.1, hfrom]
      rw [heq]
      exact ⟨p, hx.sound.mem_iff.mpr hcb, UInt64.le_refl _⟩
    · obtain ⟨i, hfind, hi, -⟩ := hx.sound.reset_of_isSome hcb hms now
      have hmodify := (hx.sound.erase hi).modify (rearmed ms from_now now)
        (fun _ => rfl) fun _ => rfl
      have hnone : (m.deref p).cb.isNone = false := by simpa using hcb
      simp only [notifies, hms, hnone, hfind, Bool.false_eq_true, if_false] at hnot
      obtain ⟨q, hq, hle⟩ := hmodify.exists_next_le htick hnot
      have hne : q ≠ p := fun heq => hmodify.not_mem (heq ▸ hq)
      have hself : ((m.erase i).modify p (rearmed ms from_now now)).deref p =
          rearmed ms from_now now (m.deref p) := by
        rw [deref_modify_of_isSome (by exact hcb), if_pos rfl, deref_erase]
      rw [deref_modify_ne hne, hself] at hle
      exact ⟨q, List.mem_of_mem_eraseIdx hq, hle⟩
  | @fired addr now hexp hrec =>
    have hmem := mem_timers_of_mem_expired hexp
    have hnext : (m.deref p).next ≤ now :=
      hx.sound.ordered.next_le_of_mem_expired hexp (UInt64.le_trans hx.previous (hf now rfl))
    have hlt : now.toNat + (m.deref p).ms.toNat < 2 ^ 64 := hw p hmem hrec hnext
    refine ⟨p, hmem, ?_⟩
    rw [UInt64.le_iff_toNat_le] at hnext ⊢
    rw [UInt64.toNat_add, Nat.mod_eq_of_lt hlt]
    omega

/-! ## The invariant -/

/-- While `m_tickled` is false no deadline is earlier than what was seen; when it is true there
has been a notification. -/
structure Watched (x : TimerManager C × Watch) : Prop where
  timed : Timed x
  tickled : x.1.tickled = true → x.2.notified = true
  seen : x.1.tickled = false → ∀ p ∈ x.1.timers, ∃ seen, x.2.seen = some seen ∧
    seen ≤ (x.1.deref p).next

/-- The worker is told of the earliest timer. -/
theorem Watched.awake {x : TimerManager C × Watch} (hx : Watched x) : Awake x := by
  intro p hp hearly
  cases htick : x.1.tickled with
  | true => exact hx.tickled htick
  | false =>
    obtain ⟨seen, hseen, hle⟩ := hx.seen htick p hp
    exact absurd (hearly seen hseen) (UInt64.not_lt.mpr hle)

/-- Every operation under the conditions on the clock keeps the flag right. -/
theorem Watched.step (hx : Watched (m, h)) (hf : Forward (m, h) op) (hw : NoWrap (m, h) op)
    (hs : m.step op = some t) : Watched (t, Watch.record m op t h) := by
  have htimed := hx.timed.step hf hw hs
  have hsound : t.Sound [] := hx.timed.sound.step hs
  by_cases hop : ∃ now, op = .getNextTimer now
  · obtain ⟨now, rfl⟩ := hop
    cases hs
    have hclear : (m.getNextTimer now).1.tickled = false := by
      unfold getNextTimer
      dsimp only
      split <;> rfl
    refine ⟨htimed, fun htick => ?_, fun _ p hp => ?_⟩
    · exact absurd (hclear.symm.trans htick) Bool.false_ne_true
    · dsimp only at hp ⊢
      rw [getNextTimer_timers] at hp
      obtain ⟨first, hfirst, hle⟩ := hx.timed.sound.head_next_le hp
      rw [getNextTimer_deref]
      exact ⟨_, by simp only [Watch.record, hfirst, Option.map_some], hle⟩
  · have hop' (now : UInt64) : op ≠ .getNextTimer now := fun heq => hop ⟨now, heq⟩
    have htickled := (step_frame hs).tickled hop'
    have hnotified : (Watch.record m op t h).notified = (h.notified || m.notifies op) := by
      cases op <;> first | rfl | exact absurd rfl (hop' _)
    have hseen : (Watch.record m op t h).seen = h.seen := by
      cases op <;> first | rfl | exact absurd rfl (hop' _)
    refine ⟨htimed, fun htick => ?_, fun htick p hp => ?_⟩
    · dsimp only at htick ⊢
      rw [htickled] at htick
      rw [hnotified]
      rcases (Bool.or_eq_true _ _).mp htick with hold | hnew
      · rw [show h.notified = true from hx.tickled hold, Bool.true_or]
      · rw [hnew, Bool.or_true]
    · dsimp only at htick hp ⊢
      rw [htickled, Bool.or_eq_false_iff] at htick
      obtain ⟨q, hq, hle⟩ := hx.timed.next_step hf hw hs htick.1 htick.2 (hsound.mem_iff.mp hp)
      obtain ⟨seen, heq, hseenle⟩ := hx.seen htick.1 q hq
      exact ⟨seen, hseen.trans heq, UInt64.le_trans hseenle hle⟩

/-- In every run with a clock that does not go back and deadlines that do not wrap around, no
wakeup is lost. -/
theorem no_lost_wakeup (now : UInt64) (ops : List (Op C))
    (hforward : Guarded (recorded step Watch.record) Forward (new now, .start now) ops)
    (hwrap : Guarded (recorded step Watch.record) NoWrap (new now, .start now) ops) :
    Along (recorded step Watch.record) Awake (new now, .start now) ops :=
  along_of_guarded (I := Watched)
    (fun _ _ _ hx hg hr => of_recorded hr fun _ hs => hx.step hg.1 hg.2 hs)
    (fun _ hx => hx.awake) ⟨.start now, nofun, nofun⟩ (hforward.and hwrap)

/-- After a `getNextTimer` an earlier timer is added, the first one is refreshed and reset to be
due before, and both expire. -/
def earlierTimers : List (Op Unit) :=
  [.addTimer 16 1000 500 () true, .getNextTimer 1000, .addTimer 32 1010 100 () false,
    .refresh 0 1020, .getNextTimer 1020, .reset 0 50 true 1030, .listExpiredCb 48 1200,
    .getNextTimer 1200]

/-- Two timers, each earlier than the one before. -/
theorem no_lost_wakeup_earlierTimers :
    (run (recorded step Watch.record) (new 1000, .start 1000) earlierTimers).isSome ∧
      Along (recorded step Watch.record) Awake (new 1000, .start 1000) earlierTimers :=
  ⟨by decide, no_lost_wakeup 1000 earlierTimers (by decide) (by decide)⟩

end Xupeng.TimerManager
