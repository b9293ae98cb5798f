import Xupeng.Models.Timer.Interpretation.Calls

/-!
# What the operations do to the timers

An operation keeps the set sound, and it says of every timer what becomes of it.
-/

namespace Xupeng.TimerManager

variable {C : Type} {m : TimerManager C} {p q addr : Nat} {now ms : UInt64}

/-- The call clears a flag only. -/
theorem Sound.getNextTimer (h : m.Sound []) : (m.getNextTimer now).1.Sound [] := by
  unfold TimerManager.getNextTimer
  dsimp only
  split <;> exact ⟨h.increasing, h.alive⟩

/-- A timer that is cancelled loses its callback. -/
theorem Sound.deref_cancel (h : m.Sound []) {r : TimerManager C × Bool}
    (hr : m.cancel p = some r) (q : Nat) :
    r.1.deref q = if q = p then { m.deref q with cb := none } else m.deref q := by
  cases hp : (m.deref p).cb.isSome with
  | true =>
    obtain ⟨i, -, hcancel⟩ := h.cancel_of_isSome hp
    cases hcancel.symm.trans hr
    dsimp only
    rw [deref_modify_of_isSome (by exact hp), deref_erase]
    split
    · rename_i hq
      rw [hq]
    · rfl
  | false =>
    cases (cancel_of_isNone hp).symm.trans hr
    split
    · rename_i hq
      have hnone : (m.deref q).cb = none := by simpa [hq] using hp
      rw [← hnone]
    · rfl

/-- A timer with a callback is due after its period again. -/
theorem Sound.deref_refresh (h : m.Sound []) (p q : Nat) (now : UInt64) :
    (m.refresh p now).1.deref q =
      if q = p ∧ (m.deref q).cb.isSome then { m.deref q with next := now + (m.deref q).ms }
      else m.deref q := by
  cases hp : (m.deref p).cb.isSome with
  | true =>
    obtain ⟨i, -, hrefresh⟩ := h.refresh_of_isSome hp now
    rw [hrefresh, deref_insert, deref_modify_of_isSome (by exact hp), deref_erase]
    by_cases hq : q = p
    · simp [hq, hp]
    · simp [hq]
  | false =>
    rw [refresh_of_isNone hp, if_neg]
    rintro ⟨rfl, hsome⟩
    rw [hp] at hsome
    cases hsome

/-- A timer with a callback is armed again. -/
theorem Sound.deref_reset (h : m.Sound []) (p q : Nat) (ms : UInt64) (from_now : Bool)
    (now : UInt64) :
    (m.reset p ms from_now now).1.deref q =
      if q = p ∧ (m.deref q).cb.isSome then rearmed ms from_now now (m.deref q)
      else m.deref q := by
  cases hp : (m.deref p).cb.isSome with
  | true =>
    by_cases hms : ms = (m.deref p).ms ∧ !from_now
    · -- the early return is what the rest of the function would do
      have hsame : rearmed ms from_now now (m.deref p) = m.deref p := by
        have hfrom : from_now = false := by simpa using hms.2
        simp [rearmed, hms.1, hfrom]
      rw [TimerManager.reset, if_pos hms]
      split
      · rename_i hq
        rw [hq.1, hsame]
      · rfl
    · obtain ⟨i, -, -, hreset⟩ := h.reset_of_isSome hp hms now
      rw [hreset, deref_addTimerLocked, deref_modify_of_isSome (by exact hp), deref_erase]
      by_cases hq : q = p
      · simp [hq, hp]
      · simp [hq]
  | false =>
    rw [reset_of_isNone hp, if_neg]
    rintro ⟨rfl, hsome⟩
    rw [hp] at hsome
    cases hsome

theorem getNextTimer_deref (now : UInt64) (m : TimerManager C) :
    (m.getNextTimer now).1.deref = m.deref := by
  unfold TimerManager.getNextTimer
  dsimp only
  split <;> rfl

/-- A timer is made only at an address that no timer of the set has. -/
theorem of_step_addTimer {t : TimerManager C} {addr : Nat} {now ms : UInt64} {cb : C}
    {recurring : Bool} (hs : m.step (.addTimer addr now ms cb recurring) = some t) :
    (∀ p ∈ m.timers, (m.deref p).addr ≠ addr) ∧
      t = (m.addTimer addr now ms (some cb) recurring).1 := by
  obtain ⟨haddr, ht⟩ := Option.ite_none_right_eq_some.mp hs
  exact ⟨haddr, (Option.some.inj ht).symm⟩

/-- Every operation keeps the set sound. -/
theorem Sound.step {t : TimerManager C} {op : Op C} (h : m.Sound []) (hs : m.step op = some t) :
    t.Sound [] := by
  cases op with
  | addTimer addr now ms cb recurring =>
    obtain ⟨haddr, rfl⟩ := of_step_addTimer hs
    exact h.addTimer haddr
  | cancel p =>
    obtain ⟨r, hr, rfl⟩ := Option.map_eq_some_iff.mp hs
    exact h.cancel hr
  | refresh p now =>
    cases hs
    exact h.refresh
  | reset p ms from_now now =>
    cases hs
    exact h.reset from_now
  | listExpiredCb addr now =>
    cases hs
    exact h.listExpiredCb
  | getNextTimer now =>
    cases hs
    exact h.getNextTimer

/-- Putting a timer into the set changes nothing but the set. -/
theorem insert_with (p : Nat) (m : TimerManager C) :
    ∃ timers, (m.insert p).1 = { m with timers := timers } := by
  unfold TimerManager.insert
  dsimp only
  split
  · split
    · exact ⟨_, rfl⟩
    · exact ⟨m.timers, rfl⟩
  · exact ⟨_, rfl⟩

/-- The loop changes nothing but the set and its timers. -/
theorem fire_with (now : UInt64) (ps : List Nat) (m : TimerManager C) :
    ∃ heap timers, heap.length = m.heap.length ∧
      (m.fire now ps).1 = { m with heap := heap, timers := timers } := by
  induction ps generalizing m with
  | nil => exact ⟨m.heap, m.timers, rfl, rfl⟩
  | cons p ps ih =>
    have hone : ∃ heap timers, heap.length = m.heap.length ∧
        m.fireOne now p = { m with heap := heap, timers := timers } := by
      unfold TimerManager.fireOne
      split
      · obtain ⟨timers, hinsert⟩ :=
          insert_with p (m.modify p fun t => { t with next := now + t.ms })
        exact ⟨_, timers, List.length_set, hinsert⟩
      · exact ⟨_, m.timers, List.length_set, rfl⟩
    obtain ⟨heap, timers, hlen, hone⟩ := hone
    obtain ⟨heap', timers', hlen', hfire⟩ := ih (m.fireOne now p)
    refine ⟨heap', timers', ?_, ?_⟩
    · rw [hlen', hone, hlen]
    · rw [fire_cons, hfire, hone]

/-- `addTimer` under the lock changes nothing but the set, and sets the flag when it notifies. -/
theorem addTimerLocked_with (p : Nat) (m : TimerManager C) :
    ∃ timers, (m.addTimerLocked p).1 =
      { m with timers := timers, tickled := m.tickled || (m.addTimerLocked p).2 } := by
  obtain ⟨timers, hinsert⟩ := insert_with p m
  refine ⟨timers, ?_⟩
  unfold TimerManager.addTimerLocked
  dsimp only
  rw [hinsert]
  split
  · rename_i hfront
    rw [hfront, Bool.or_true]
  · rename_i hfront
    rw [Bool.eq_false_iff.mpr hfront, Bool.or_false]

/-- `addTimer` makes one timer, and changes nothing else but the set and the flag. -/
theorem addTimer_with (addr : Nat) (now ms : UInt64) (cb : Option C) (recurring : Bool)
    (m : TimerManager C) :
    ∃ timers, (m.addTimer addr now ms cb recurring).1 =
      { m with
        heap := m.heap ++ [⟨recurring, ms, now + ms, cb, addr⟩]
        timers := timers
        tickled := m.tickled || (m.addTimer addr now ms cb recurring).2 } :=
  addTimerLocked_with m.heap.length _

/-- The operation makes a timer. -/
def Op.Makes : Op C → Prop
  | .addTimer .. => True
  | _ => False

/-- Whether an operation calls `onTimerInsertedAtFront`. -/
def notifies (m : TimerManager C) : Op C → Bool
  | .addTimer addr now ms cb recurring => (m.addTimer addr now ms (some cb) recurring).2
  | .reset p ms from_now now =>
    if ms = (m.deref p).ms ∧ !from_now then false
    else if (m.deref p).cb.isNone then false
    else
      match m.find p with
      | none => false
      | some i => (((m.erase i).modify p (rearmed ms from_now now)).addTimerLocked p).2
  | _ => false

/-- What an operation does beside the set and its timers: only `addTimer` makes a timer, only
`listExpiredCb` writes the time that it compares the next reading with, and the flag is set by a
notification and cleared by `getNextTimer`. -/
structure Frame (m : TimerManager C) (op : Op C) (t : TimerManager C) : Prop where
  heap : ¬ op.Makes → t.heap.length = m.heap.length
  previouseTime : t.previouseTime = m.previouseTime ∨
    ∃ addr now, op = .listExpiredCb addr now ∧ t.previouseTime = now
  tickled : (∀ now, op ≠ .getNextTimer now) → t.tickled = (m.tickled || m.notifies op)

theorem step_frame {t : TimerManager C} {op : Op C} (hs : m.step op = some t) :
    Frame m op t := by
  -- an operation without a notification
  have hquiet {u : TimerManager C} (hlen : u.heap.length = m.heap.length)
      (htime : u.previouseTime = m.previouseTime) (htick : u.tickled = m.tickled)
      (hnot : m.notifies op = false) : Frame m op u :=
    ⟨fun _ => hlen, Or.inl htime, fun _ => by rw [htick, hnot, Bool.or_false]⟩
  cases op with
  | addTimer addr now ms cb recurring =>
    obtain ⟨-, rfl⟩ := of_step_addTimer hs
    obtain ⟨timers, hadd⟩ := addTimer_with addr now ms (some cb) recurring m
    rw [hadd]
    exact ⟨fun hop => absurd trivial hop, Or.inl rfl, fun _ => rfl⟩
  | cancel p =>
    obtain ⟨r, hr, rfl⟩ := Option.map_eq_some_iff.mp hs
    unfold TimerManager.cancel at hr
    split at hr
    · obtain ⟨i, -, rfl⟩ := Option.map_eq_some_iff.mp hr
      exact hquiet List.length_set rfl rfl rfl
    · cases hr
      exact hquiet rfl rfl rfl rfl
  | refresh p now =>
    cases hs
    unfold TimerManager.refresh
    split
    · exact hquiet rfl rfl rfl rfl
    · split
      · exact hquiet rfl rfl rfl rfl
      · rename_i i hi
        obtain ⟨timers, hinsert⟩ :=
          insert_with p ((m.erase i).modify p fun t => { t with next := now + t.ms })
        rw [hinsert]
        exact hquiet List.length_set rfl rfl rfl
  | reset p ms from_now now =>
    cases hs
    unfold TimerManager.reset
    split
    · rename_i hms
      exact hquiet rfl rfl rfl (if_pos hms)
    · rename_i hms
      split
      · rename_i hnone
        exact hquiet rfl rfl rfl ((if_neg hms).trans (if_pos hnone))
      · rename_i hnone
        split
        · rename_i hfind
          refine hquiet rfl rfl rfl ((if_neg hms).trans ((if_neg hnone).trans ?_))
          rw [hfind]
        · rename_i i hfind
          obtain ⟨timers, hadd⟩ :=
            addTimerLocked_with p ((m.erase i).modify p (rearmed ms from_now now))
          have hnotifies : m.notifies (.reset p ms from_now now) =
              (((m.erase i).modify p (rearmed ms from_now now)).addTimerLocked p).2 := by
            refine (if_neg hms).trans ((if_neg hnone).trans ?_)
            rw [hfind]
          change Frame m _ (((m.erase i).modify p (rearmed ms from_now now)).addTimerLocked p).1
          rw [hadd]
          exact ⟨fun _ => List.length_set, Or.inl rfl, fun _ => by rw [hnotifies]; rfl⟩
  | listExpiredCb addr now =>
    cases hs
    obtain ⟨heap, timers, hlen, hfire⟩ := fire_with now (m.expired addr now) (m.cut addr now)
    rw [listExpiredCb_eq, hfire]
    refine ⟨fun _ => hlen, ?_, fun _ => (Bool.or_false _).symm⟩
    dsimp only [TimerManager.cut]
    split
    · exact Or.inl rfl
    · exact Or.inr ⟨addr, now, rfl, rfl⟩
  | getNextTimer now =>
    cases hs
    unfold TimerManager.getNextTimer
    dsimp only
    split <;> exact ⟨fun _ => rfl, Or.inl rfl, fun hop => absurd rfl (hop now)⟩

/-- What becomes of a timer in an operation. -/
def outcome (m : TimerManager C) (q : Nat) : Op C → Timer C
  | .addTimer addr now ms cb recurring =>
    if q = m.heap.length then ⟨recurring, ms, now + ms, some cb, addr⟩ else m.deref q
  | .cancel p => if q = p then { m.deref q with cb := none } else m.deref q
  | .refresh p now =>
    if q = p ∧ (m.deref q).cb.isSome then { m.deref q with next := now + (m.deref q).ms }
    else m.deref q
  | .reset p ms from_now now =>
    if q = p ∧ (m.deref q).cb.isSome then rearmed ms from_now now (m.deref q) else m.deref q
  | .listExpiredCb addr now =>
    if q ∈ m.expired addr now then fired now (m.deref q) else m.deref q
  | .getNextTimer _ => m.deref q

/-- Every operation does to the timers what `outcome` says. -/
theorem Sound.deref_step {t : TimerManager C} {op : Op C} (h : m.Sound [])
    (hs : m.step op = some t) (q : Nat) : t.deref q = m.outcome q op := by
  cases op with
  | addTimer addr now ms cb recurring =>
    obtain ⟨-, rfl⟩ := of_step_addTimer hs
    exact deref_addTimer m addr (some cb) recurring q
  | cancel p =>
    obtain ⟨r, hr, rfl⟩ := Option.map_eq_some_iff.mp hs
    exact h.deref_cancel hr q
  | refresh p now =>
    cases hs
    exact h.deref_refresh p q now
  | reset p ms from_now now =>
    cases hs
    exact h.deref_reset p q ms from_now now
  | listExpiredCb addr now =>
    cases hs
    exact h.ordered.deref_listExpiredCb q
  | getNextTimer now =>
    cases hs
    exact congrFun (getNextTimer_deref now m) q

/-- An operation on timers that exist changes neither whether they recur nor what they call, but
it can take the callback away. -/
theorem outcome_cb (m : TimerManager C) {op : Op C} (hop : ¬ op.Makes) (q : Nat) :
    (m.outcome q op).recurring = (m.deref q).recurring ∧
      ((m.outcome q op).cb = (m.deref q).cb ∨ (m.outcome q op).cb = none) := by
  cases op with
  | addTimer addr now ms cb recurring => exact absurd trivial hop
  | cancel p =>
    simp only [outcome]
    split
    · exact ⟨rfl, Or.inr rfl⟩
    · exact ⟨rfl, Or.inl rfl⟩
  | refresh p now | reset p ms from_now now =>
    simp only [outcome]
    split <;> exact ⟨rfl, Or.inl rfl⟩
  | listExpiredCb addr now =>
    simp only [outcome, fired]
    split
    · split
      · exact ⟨rfl, Or.inl rfl⟩
      · exact ⟨rfl, Or.inr rfl⟩
    · exact ⟨rfl, Or.inl rfl⟩
  | getNextTimer now => exact ⟨rfl, Or.inl rfl⟩

end Xupeng.TimerManager
