import Xupeng.Core.Run
import Xupeng.Models.Thread.Native.State

/-!
# The handshake of a thread with its constructor

Up to `notify` the new thread uses the object, and the constructor cannot return; after
it only the callback can reach the object. So the count of the semaphore says on which
side of `notify` the thread is, for as long as the constructor is at work.
-/

namespace Xupeng.Thread

variable {C : Type}

namespace Pc

/-- The thread has copied the name. -/
def named : Pc → Bool
  | .setThis | .copyName => false
  | _ => true

/-- The thread has set `m_id`. -/
def identified : Pc → Bool
  | .setThis | .copyName | .setId => false
  | _ => true

/-- The thread has taken the callback. -/
def taken : Pc → Bool
  | .notify | .callCb | .inCb | .ended => true
  | _ => false

/-- The thread has told the constructor to return. -/
def notified : Pc → Bool
  | .callCb | .inCb | .ended => true
  | _ => false

/-- The thread has called its callback. -/
def called : Pc → Bool
  | .inCb | .ended => true
  | _ => false

/-- The number of statements up to the end of the thread -/
def left : Pc → Nat
  | .setThis => 8
  | .copyName => 7
  | .setId => 6
  | .setTitle => 5
  | .swapCb => 4
  | .notify => 3
  | .callCb => 2
  | .inCb => 1
  | .ended => 0

end Pc

/-- An object and its thread agree on how far the thread is. -/
structure Slot.Agrees (s : Slot C) : Prop where
  safe : s.dangling = false
  /-- The constructor returns after `notify`. -/
  notified : s.life ≠ .making → s.thread.pc.notified = true
  semaphore : s.life = .making → s.object.m_semaphore = if s.thread.pc.notified then 1 else 0
  this : s.thread.pc ≠ .setThis → s.thread.t_thread = true
  name : s.object.m_name ≠ "" ∧ (s.life ≠ .gone → s.thread.pc.named = true →
    s.thread.t_thread_name = s.object.m_name)
  id : s.thread.pc.identified = true → s.object.m_id = s.thread.tid
  cb : (s.thread.cb, s.object.m_cb) =
    if s.thread.pc.taken then (some s.given, none) else (none, some s.given)
  called : s.thread.called = if s.thread.pc.called then [s.given] else []
  joined : s.object.m_thread = false → s.thread.pc = .ended

namespace Slot

variable {s t : Slot C}

theorem access_of_ne {f : Thread C → Thread C} {thread : Execution C} (h : s.life ≠ .gone) :
    s.access f thread = { s with object := f s.object, thread := thread } :=
  if_neg h

/-- What a thread leaves as it is, of itself and of its object. -/
structure Frame (s t : Slot C) : Prop where
  tid : t.thread.tid = s.thread.tid
  life : t.life = s.life
  given : t.given = s.given

theorem access_frame {f : Thread C → Thread C} {thread : Execution C}
    (htid : thread.tid = s.thread.tid) : Frame s (s.access f thread) := by
  unfold access
  split
  · exact ⟨rfl, rfl, rfl⟩
  · exact ⟨htid, rfl, rfl⟩

theorem run_frame (hs : s.run = some t) : Frame s t := by
  unfold Slot.run at hs
  split at hs
  case h_7 =>
    obtain ⟨cb, -, rfl⟩ := Option.map_eq_some_iff.mp hs
    exact ⟨rfl, rfl, rfl⟩
  case h_1 | h_8 =>
    cases hs
    exact ⟨rfl, rfl, rfl⟩
  case h_9 => cases hs
  all_goals
    cases hs
    exact access_frame rfl

theorem setName_frame (name : String) (s : Slot C) : Frame s (s.setName name) := by
  unfold setName
  split
  · exact ⟨rfl, rfl, rfl⟩
  · split
    · exact access_frame rfl
    · exact ⟨rfl, rfl, rfl⟩

/-- A thread keeps its id. -/
theorem step_tid {a : Act} (hs : s.step a = some t) : t.thread.tid = s.thread.tid := by
  cases a with
  | run => exact (run_frame hs).tid
  | setName name =>
    obtain ⟨-, hs⟩ := Option.ite_none_right_eq_some.mp hs
    cases hs
    exact (setName_frame name s).tid
  | wait success =>
    cases success with
    | false | true =>
      obtain ⟨-, hs⟩ := Option.ite_none_right_eq_some.mp hs
      cases hs
      rfl
  | join =>
    obtain ⟨-, hs⟩ := Option.ite_none_right_eq_some.mp hs
    split at hs
    · obtain ⟨-, hs⟩ := Option.ite_none_right_eq_some.mp hs
      cases hs
      rfl
    · cases hs
      rfl
  | destroy =>
    obtain ⟨-, hs⟩ := Option.ite_none_right_eq_some.mp hs
    cases hs
    rfl

namespace Agrees

theorem new (cb : C) (name : String) (tid : Int) :
    Agrees { object := .new cb name, thread := { tid := tid }, given := cb } where
  safe := rfl
  notified h := absurd rfl h
  semaphore _ := rfl
  this h := absurd rfl h
  name := by
    refine ⟨?_, fun _ h => by cases h⟩
    dsimp only [Thread.new]
    split
    · decide
    · assumption
  id h := by cases h
  cb := rfl
  called := rfl
  joined h := by cases h

/-- Before `notify` the constructor is at work. -/
theorem making (h : s.Agrees) (hpc : s.thread.pc.notified = false) : s.life = .making := by
  by_contra hlife
  rw [h.notified hlife] at hpc
  cases hpc

/-- A statement of the thread before `notify` that leaves the semaphore alone. The object and the
thread have to agree on what it does to the name, to the id and to the callback. -/
theorem use (h : s.Agrees) (hpc : s.thread.pc.notified = false) {object : Thread C}
    {thread : Execution C} (hnotified : thread.pc.notified = false)
    (hsemaphore : object.m_semaphore = s.object.m_semaphore)
    (hthis : thread.t_thread = true) (hobject : object.m_name = s.object.m_name)
    (hname : thread.pc.named = true → thread.t_thread_name = s.object.m_name)
    (hid : thread.pc.identified = true → object.m_id = thread.tid)
    (hcb : (thread.cb, object.m_cb) =
      if thread.pc.taken then (some s.given, none) else (none, some s.given))
    (hcalled : thread.called = s.thread.called) (hjoined : object.m_thread = s.object.m_thread) :
    Agrees { s with object := object, thread := thread } := by
  have hlife := h.making hpc
  have hne : s.thread.pc.called = false ∧ thread.pc.called = false ∧ s.thread.pc ≠ .ended := by
    revert hpc hnotified
    cases s.thread.pc <;> cases thread.pc <;> decide
  refine ⟨h.safe, fun hl => absurd hlife hl, fun _ => ?_, fun _ => hthis, ?_, hid, hcb, ?_, ?_⟩
  · dsimp only
    rw [hsemaphore, h.semaphore hlife, hpc, hnotified]
  · dsimp only
    rw [hobject]
    exact ⟨h.name.1, fun _ => hname⟩
  · dsimp only
    rw [hcalled, h.called, hne.1, hne.2.1]
  · dsimp only
    rw [hjoined]
    exact fun hj => absurd (h.joined hj) hne.2.2

/-- A statement of `run`. -/
theorem run (h : s.Agrees) (hs : s.run = some t) : t.Agrees := by
  have hcb := h.cb
  have hcalled := h.called
  have hname (hl : s.life ≠ .gone) := h.name.2 hl
  have halive (hpc : s.thread.pc.notified = false) : s.life ≠ .gone := by
    rw [h.making hpc]
    exact Life.noConfusion
  unfold Slot.run at hs
  split at hs
  all_goals rename_i hpc; rw [hpc] at halive hcb hcalled hname
  · cases hs
    exact h.use (by rw [hpc]; rfl) rfl rfl rfl rfl (fun hn => by cases hn) (fun hid => by cases hid)
      hcb rfl rfl
  · rw [access_of_ne (halive rfl)] at hs
    cases hs
    have hthis := h.this (by rw [hpc]; exact Pc.noConfusion)
    exact h.use (by rw [hpc]; rfl) rfl rfl hthis rfl (fun _ => rfl) (fun hid => by cases hid) hcb
      rfl rfl
  · rw [access_of_ne (halive rfl)] at hs
    cases hs
    have hthis := h.this (by rw [hpc]; exact Pc.noConfusion)
    exact h.use (by rw [hpc]; rfl) rfl rfl hthis rfl (fun _ => hname (halive rfl) rfl)
      (fun _ => rfl) hcb rfl rfl
  · rw [access_of_ne (halive rfl)] at hs
    cases hs
    have hthis := h.this (by rw [hpc]; exact Pc.noConfusion)
    have hid := h.id (by rw [hpc]; rfl)
    exact h.use (by rw [hpc]; rfl) rfl rfl hthis rfl (fun _ => hname (halive rfl) rfl)
      (fun _ => hid) hcb rfl rfl
  · rw [access_of_ne (halive rfl)] at hs
    cases hs
    have hthis := h.this (by rw [hpc]; exact Pc.noConfusion)
    have hid := h.id (by rw [hpc]; rfl)
    -- the two functions are swapped
    have hswap := congrArg Prod.swap hcb
    exact h.use (by rw [hpc]; rfl) rfl rfl hthis rfl (fun _ => hname (halive rfl) rfl)
      (fun _ => hid) hswap rfl rfl
  · rw [access_of_ne (halive rfl)] at hs
    cases hs
    have hlife := h.making (by rw [hpc]; rfl)
    have hsemaphore := h.semaphore hlife
    rw [hpc] at hsemaphore
    refine ⟨h.safe, fun _ => rfl, fun _ => ?_, fun _ => h.this (by rw [hpc]; exact Pc.noConfusion),
      ⟨h.name.1, hname⟩, fun _ => h.id (by rw [hpc]; rfl), hcb, hcalled, fun hj => ?_⟩
    · exact congrArg (· + 1) hsemaphore
    · cases hpc.symm.trans (h.joined hj)
  · obtain ⟨hcb', hm⟩ := Prod.ext_iff.mp hcb
    rw [show s.thread.cb = some s.given from hcb'] at hs
    cases hs
    refine ⟨h.safe, fun _ => rfl, fun hl => ?_, fun _ => h.this (by rw [hpc]; exact Pc.noConfusion),
      ⟨h.name.1, hname⟩, fun _ => h.id (by rw [hpc]; rfl), hcb, ?_, fun hj => ?_⟩
    · have hsemaphore := h.semaphore hl
      rw [hpc] at hsemaphore
      exact hsemaphore
    · exact congrArg (· ++ [s.given]) hcalled
    · cases hpc.symm.trans (h.joined hj)
  · cases hs
    refine ⟨h.safe, fun _ => rfl, fun hl => ?_, fun _ => h.this (by rw [hpc]; exact Pc.noConfusion),
      ⟨h.name.1, hname⟩, fun _ => h.id (by rw [hpc]; rfl), hcb, hcalled, fun _ => rfl⟩
    have hsemaphore := h.semaphore hl
    rw [hpc] at hsemaphore
    exact hsemaphore
  · cases hs

/-- `SetName`, while the object exists. -/
theorem setName (h : s.Agrees) {name : String} (hpc : s.thread.pc = .inCb)
    (hname : name ≠ "" → s.life ≠ .gone) : (s.setName name).Agrees := by
  have hthis := h.this (by rw [hpc]; exact Pc.noConfusion)
  unfold Slot.setName
  by_cases hne : name = ""
  · rw [if_pos hne]
    exact h
  · rw [if_neg hne, if_pos hthis, access_of_ne (hname hne)]
    exact ⟨h.safe, h.notified, h.semaphore, h.this, ⟨hne, fun _ _ => rfl⟩, h.id, h.cb, h.called,
      h.joined⟩

end Agrees

/-- What the user of a thread has to see to: `sem_wait` is not interrupted, and the callback does
not call `SetName` after the end of the object. -/
def Proper (s : Slot C) : Act → Prop
  | .wait success => success = true
  | .setName name => s.thread.pc = .inCb → name ≠ "" → s.life ≠ .gone
  | _ => True

instance (s : Slot C) (a : Act) : Decidable (s.Proper a) :=
  match a with
  | .wait _ => inferInstanceAs (Decidable (_ = _))
  | .setName _ => inferInstanceAs (Decidable (_ → _ → _))
  | .run | .join | .destroy => isTrue trivial

/-- Every step keeps the object and its thread in agreement. -/
theorem Agrees.step (h : s.Agrees) {a : Act} (ha : s.Proper a) (hs : s.step a = some t) :
    t.Agrees := by
  cases a with
  | wait success =>
    obtain rfl : success = true := ha
    obtain ⟨⟨hlife, hpos⟩, hs⟩ := Option.ite_none_right_eq_some.mp hs
    cases hs
    have hsemaphore := h.semaphore hlife
    -- the count is positive, so the thread has come past `notify`
    have hnotified : s.thread.pc.notified = true := by
      by_contra hn
      rw [if_neg hn] at hsemaphore
      omega
    have halive : s.life ≠ .gone := by
      rw [hlife]
      exact Life.noConfusion
    exact ⟨h.safe, fun _ => hnotified, fun hl => (by cases hl), h.this,
      ⟨h.name.1, fun _ => h.name.2 halive⟩, h.id, h.cb, h.called, h.joined⟩
  | run => exact h.run hs
  | setName name =>
    obtain ⟨hpc, hs⟩ := Option.ite_none_right_eq_some.mp hs
    cases hs
    exact h.setName hpc (ha hpc)
  | join =>
    obtain ⟨hlife, hs⟩ := Option.ite_none_right_eq_some.mp hs
    split at hs
    · obtain ⟨hended, hs⟩ := Option.ite_none_right_eq_some.mp hs
      cases hs
      exact ⟨h.safe, h.notified, h.semaphore, h.this, h.name, h.id, h.cb, h.called, fun _ => hended⟩
    · cases hs
      exact h
  | destroy =>
    obtain ⟨hlife, hs⟩ := Option.ite_none_right_eq_some.mp hs
    cases hs
    have hnotified := h.notified (by rw [hlife]; exact Life.noConfusion)
    exact ⟨h.safe, fun _ => hnotified, fun hl => (by cases hl), h.this,
      ⟨h.name.1, fun hl => absurd rfl hl⟩, h.id, h.cb, h.called, h.joined⟩

/-! ## Progress -/

/-- A thread that has not ended has a statement to execute. -/
theorem Agrees.progress (h : s.Agrees) (hpc : s.thread.pc ≠ .ended) :
    ∃ t, s.run = some t ∧ t.thread.pc.left < s.thread.pc.left := by
  have halive (hn : s.thread.pc.notified = false) : s.life ≠ .gone := by
    rw [h.making hn]
    exact Life.noConfusion
  have hcb := h.cb
  unfold Slot.run
  cases heq : s.thread.pc with
  | ended => exact absurd heq hpc
  | setThis | inCb => exact ⟨_, rfl, Nat.lt_succ_self _⟩
  | callCb =>
    rw [heq] at hcb
    obtain ⟨hcb, -⟩ := Prod.ext_iff.mp hcb
    rw [show s.thread.cb = some s.given from hcb]
    exact ⟨_, rfl, Nat.lt_succ_self _⟩
  | copyName | setId | setTitle | swapCb | notify =>
    rw [heq] at halive
    dsimp only
    rw [access_of_ne (halive rfl)]
    exact ⟨_, rfl, Nat.lt_succ_self _⟩

/-- A thread that has ended can be joined, after its constructor has returned. -/
theorem Agrees.joins (h : s.Agrees) (hended : s.thread.pc = .ended) (hlife : s.life ≠ .gone) :
    ∃ acts t, Xupeng.run Slot.step s acts = some t ∧ t.Agrees ∧ t.life = .made ∧
      t.object.m_thread = false ∧ t.given = s.given := by
  -- `join`, by the owner
  have hjoin {u : Slot C} (hu : u.Agrees) (hmade : u.life = .made) (hpc : u.thread.pc = .ended) :
      ∃ t, u.step .join = some t ∧ t.Agrees ∧ t.life = .made ∧ t.object.m_thread = false ∧
        t.given = u.given := by
    by_cases hm : u.object.m_thread = true
    · have hs : u.step .join = some { u with object := { u.object with m_thread := false } } := by
        simp only [Slot.step, if_pos hmade, if_pos hm, if_pos hpc]
      exact ⟨_, hs, hu.step (a := .join) trivial hs, hmade, rfl, rfl⟩
    · have hs : u.step .join = some u := by
        simp only [Slot.step, if_pos hmade, if_neg hm]
      exact ⟨u, hs, hu, hmade, Bool.eq_false_iff.mpr hm, rfl⟩
  cases hs : s.life with
  | gone => exact absurd hs hlife
  | made =>
    obtain ⟨t, ht, hagrees, hmade, hm, hgiven⟩ := hjoin h hs hended
    exact ⟨[.join], t, run_cons_eq_some.mpr ⟨t, ht, rfl⟩, hagrees, hmade, hm, hgiven⟩
  | making =>
    have hsemaphore := h.semaphore hs
    rw [hended] at hsemaphore
    have hpos : 0 < s.object.m_semaphore := by
      rw [hsemaphore]
      exact Nat.one_pos
    have hw : s.step (.wait true) = some { s with
        object := { s.object with m_semaphore := s.object.m_semaphore - 1 }
        life := .made } := if_pos ⟨hs, hpos⟩
    obtain ⟨t, ht, hagrees, hmade, hm, hgiven⟩ := hjoin (h.step (a := .wait true) rfl hw) rfl hended
    refine ⟨[.wait true, .join], t, ?_, hagrees, hmade, hm, hgiven⟩
    exact run_cons_eq_some.mpr ⟨_, hw, run_cons_eq_some.mpr ⟨t, ht, rfl⟩⟩

/-- A thread comes to its end by its own steps, and can be joined then. -/
theorem Agrees.completes (h : s.Agrees) (hlife : s.life ≠ .gone) :
    ∃ acts t, Xupeng.run Slot.step s acts = some t ∧ t.Agrees ∧ t.life = .made ∧
      t.object.m_thread = false ∧ t.given = s.given := by
  -- by the number of statements that are left
  induction hn : s.thread.pc.left using Nat.strongRecOn generalizing s with
  | ind n ih =>
    by_cases hpc : s.thread.pc = .ended
    · exact h.joins hpc hlife
    · obtain ⟨t, ht, hlt⟩ := h.progress hpc
      have hframe := run_frame ht
      obtain ⟨acts, u, hu, hagrees, hmade, hjoined, hgiven⟩ :=
        ih _ (hn ▸ hlt) (h.run ht) (hframe.life ▸ hlife) rfl
      refine ⟨.run :: acts, u, ?_, hagrees, hmade, hjoined, hgiven.trans hframe.given⟩
      exact run_cons_eq_some.mpr ⟨t, ht, hu⟩

end Slot

end Xupeng.Thread
