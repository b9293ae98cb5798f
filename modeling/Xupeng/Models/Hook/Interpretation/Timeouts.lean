import Xupeng.Core.Entries
import Xupeng.Models.Hook.Interpretation.Located
import Xupeng.Models.Timer.Interpretation.Operations

/-!
# From a timer to the wait that it cancels

The callback of a timeout is left as long as it has not set `cancelled`: in its timer, in
a batch of expired callbacks, in the queue, or running. After that it is about to cancel
the event. `Kept` says what a call in progress can rely on: until `cancelled` is set its
own callback is left, and once it is set, the event of a call that is registered is about
to be cancelled. The lemmas go through the changes of the shared objects one by one.
-/

namespace Xupeng.Hook

/-! ## Callbacks on their way -/

/-- The callback has not set `cancelled` yet. -/
inductive Callbacks.Left (s : Callbacks) (c : Callback) : Prop
  | timer (p : Nat) (h : (s.timers.deref p).cb = some c)
  | batch (cbs : List Callback) (hcbs : cbs ∈ s.batches) (h : c ∈ cbs)
  | queue (h : c ∈ s.queue)
  | test (h : (c, .test) ∈ s.running)
  | set (h : (c, .set) ∈ s.running)

/-- The callback has not come to its end. -/
def Callbacks.Pending (s : Callbacks) (c : Callback) : Prop := s.Left c ∨ (c, .cancel) ∈ s.running

/-- A context holds the fiber for the event that it waits for. -/
def EventTable.Registered (t : EventTable) (f : Nat) (w : Wait) : Prop := ∃ q, t.Holds f w q

/-- The timer that is to end the wait. -/
def Point.armed : Point → Option Nat
  | .register timer | .grow timer | .locked timer _ | .yield timer | .suspended timer => timer
  | _ => none

/-- The same, once the event is registered. -/
def Point.registered : Point → Option Nat
  | .yield timer | .suspended timer => timer
  | _ => none

/-- Without a timer nothing is armed. -/
theorem Point.armed_of_timer {p : Point} (h : p.timer = none) : p.armed = none := by
  cases p <;> first | rfl | exact h

/-- What is not armed is not registered. -/
theorem Point.registered_of_armed {p : Point} (h : p.armed = none) : p.registered = none := by
  cases p <;> first | rfl | exact h

/-- What a call in progress can rely on. -/
structure Kept (s : Shared) (f : Nat) (w : Wait) (p : Point) : Prop where
  /-- Its timer holds its own callback or none. -/
  own : ∀ timer, p.timer = some timer → timer < s.timers.heap.length ∧
    ∀ c, (s.timers.deref timer).cb = some c → c = w.callback timer
  /-- Until `cancelled` is set, its own callback is left. -/
  left : ∀ timer, p.armed = some timer → s.cancelled w.tinfo = 0 → s.Left (w.callback timer)
  /-- After that its event, while registered, is about to be cancelled. -/
  watched : ∀ timer, p.registered = some timer → s.Registered f w → s.cancelled w.tinfo ≠ 0 →
    ∃ c, (c, .cancel) ∈ s.running ∧ c.winfo = w.tinfo ∧ c.fd = w.fd ∧ c.event = w.fn.event

namespace Kept

variable {s t : Shared} {f : Nat} {w : Wait} {p : Point}

/-- A wait without a timer needs no callback. -/
theorem of_timer_none (h : p.timer = none) : Kept s f w p := by
  have harmed := Point.armed_of_timer h
  have hreg := Point.registered_of_armed harmed
  refine ⟨fun timer ht => ?_, fun timer ht => ?_, fun timer ht => ?_⟩
  · rw [h] at ht
    cases ht
  · rw [harmed] at ht
    cases ht
  · rw [hreg] at ht
    cases ht

/-- What the shared objects have to keep for a call. -/
theorem mono (h : Kept s f w p) (hlen : s.timers.heap.length ≤ t.timers.heap.length)
    (hcb : ∀ q c, q < s.timers.heap.length → (t.timers.deref q).cb = some c →
      (s.timers.deref q).cb = some c)
    (hzero : t.cancelled w.tinfo = 0 → s.cancelled w.tinfo = 0)
    (hleft : ∀ timer, t.cancelled w.tinfo = 0 → s.Left (w.callback timer) →
      t.Left (w.callback timer))
    (hwatched : t.Registered f w → t.cancelled w.tinfo ≠ 0 →
      (∃ c, (c, .cancel) ∈ t.running ∧ c.winfo = w.tinfo ∧ c.fd = w.fd ∧ c.event = w.fn.event) ∨
        s.Registered f w ∧ s.cancelled w.tinfo ≠ 0 ∧
          ∀ c, c.fd = w.fd → c.event = w.fn.event → (c, .cancel) ∈ s.running →
            (c, .cancel) ∈ t.running) :
    Kept t f w p := by
  refine ⟨fun timer ht => ?_, fun timer ht ht0 => ?_, fun timer ht hreg hne => ?_⟩
  · obtain ⟨hlt, hown⟩ := h.own timer ht
    exact ⟨by omega, fun c hc => hown c (hcb timer c hlt hc)⟩
  · exact hleft timer ht0 (h.left timer ht (hzero ht0))
  · obtain hnew | ⟨hreg', hne', hkeep⟩ := hwatched hreg hne
    · exact hnew
    · obtain ⟨c, hc, hwinfo, hfd, hevent⟩ := h.watched timer ht hreg' hne'
      exact ⟨c, hkeep c hfd hevent hc, hwinfo, hfd, hevent⟩

/-- Callbacks move on. -/
theorem moved (h : Kept s f w p) (hlen : s.timers.heap.length ≤ t.timers.heap.length)
    (hcb : ∀ q c, q < s.timers.heap.length → (t.timers.deref q).cb = some c →
      (s.timers.deref q).cb = some c)
    (hinfos : t.infos = s.infos) (hcontexts : t.contexts = s.contexts)
    (hleft : ∀ timer, s.cancelled w.tinfo = 0 → s.Left (w.callback timer) →
      t.Left (w.callback timer))
    (hcancel : ∀ c, (c, .cancel) ∈ s.running → (c, .cancel) ∈ t.running) : Kept t f w p := by
  have hsame : t.cancelled = s.cancelled := by
    funext i
    simp only [Shared.cancelled, hinfos]
  refine h.mono hlen hcb (fun h0 => hsame ▸ h0) (fun timer h0 => hleft timer (hsame ▸ h0)) ?_
  intro hreg hne
  refine Or.inr ⟨?_, hsame ▸ hne, fun c _ _ hc => hcancel c hc⟩
  simpa only [EventTable.Registered, EventTable.Holds, hcontexts] using hreg

/-- A section empties slots. -/
theorem table (h : Kept s f w p) {table : EventTable}
    (hreg : ∀ q, table.Holds f w q → s.Holds f w q) :
    Kept { s with toEventTable := table } f w p :=
  ⟨h.own, h.left, fun timer ht ⟨q, hq⟩ hne => h.watched timer ht ⟨q, hreg q hq⟩ hne⟩

end Kept

/-! ## The way of a callback -/

section Way

variable {s : Callbacks} {c c' : Callback}

/-- A callback stays where it is when the timers change and its own keeps it. -/
theorem left_timers {timers : TimerManager Callback}
    (htimer : ∀ p, (s.timers.deref p).cb = some c → ∃ q, (timers.deref q).cb = some c)
    (h : s.Left c) : Callbacks.Left { s with timers := timers } c := by
  cases h with
  | timer p hp =>
    obtain ⟨q, hq⟩ := htimer p hp
    exact .timer q hq
  | batch cbs hcbs hc => exact .batch cbs hcbs hc
  | queue hc => exact .queue hc
  | test hc => exact .test hc
  | set hc => exact .set hc

theorem pending_of_timers {timers : TimerManager Callback}
    (h : Callbacks.Pending { s with timers := timers } c) :
    s.Pending c ∨ ∃ p, (timers.deref p).cb = some c := by
  obtain hleft | hcancel := h
  · cases hleft with
    | timer p hp => exact Or.inr ⟨p, hp⟩
    | batch cbs hcbs hc => exact Or.inl (Or.inl (.batch cbs hcbs hc))
    | queue hc => exact Or.inl (Or.inl (.queue hc))
    | test hc => exact Or.inl (Or.inl (.test hc))
    | set hc => exact Or.inl (Or.inl (.set hc))
  · exact Or.inl (Or.inr hcancel)

/-- The timers after `addTimer`: one more, which holds the callback. -/
theorem timers_of_addTimer {m m' : TimerManager Callback} {addr : Nat} {now ms : UInt64}
    {recurring : Bool} (h : m.step (.addTimer addr now ms c recurring) = some m') :
    m'.heap.length = m.heap.length + 1 ∧
      ∀ p, (m'.deref p).cb = if p = m.heap.length then some c else (m.deref p).cb := by
  simp only [TimerManager.step] at h
  split at h <;> cases h
  constructor
  · obtain ⟨timers, hadd⟩ := TimerManager.addTimerLocked_with m.heap.length
      { m with heap := m.heap ++ [⟨recurring, ms, now + ms, some c, addr⟩] }
    rw [TimerManager.addTimer, hadd]
    exact List.length_append
  · intro p
    rw [TimerManager.deref_addTimer]
    split <;> rfl

/-- The timers after `cancel`: the timer has lost its callback. -/
theorem timers_of_cancel {m m' : TimerManager Callback} {timer : Nat} (hsound : m.Sound [])
    (h : m.step (.cancel timer) = some m') :
    m'.heap.length = m.heap.length ∧
      ∀ p, (m'.deref p).cb = if p = timer then none else (m.deref p).cb := by
  refine ⟨(TimerManager.step_frame h).heap not_false, fun p => ?_⟩
  obtain ⟨r, hr, rfl⟩ := Option.map_eq_some_iff.mp h
  rw [hsound.deref_cancel hr]
  split <;> rfl

/-- Expiry moves callbacks from their timers into a batch. -/
theorem left_expire (hsound : s.timers.Sound []) (addr : Nat) (now : UInt64) (h : s.Left c) :
    Callbacks.Left { s with
      timers := (s.timers.listExpiredCb addr now).1
      batches := s.batches ++ [(s.timers.listExpiredCb addr now).2.filterMap id] } c := by
  cases h with
  | timer p hp =>
    by_cases hexp : p ∈ s.timers.expired addr now
    · refine .batch _ (List.mem_append_right _ (List.mem_singleton.mpr rfl)) ?_
      rw [hsound.ordered.listExpiredCb_cbs, List.mem_filterMap]
      exact ⟨some c, List.mem_map.mpr ⟨p, hexp, hp⟩, rfl⟩
    · refine .timer p ?_
      change ((s.timers.listExpiredCb addr now).1.deref p).cb = some c
      rw [hsound.ordered.deref_listExpiredCb, if_neg hexp, hp]
  | batch cbs hcbs hc => exact .batch cbs (List.mem_append_left _ hcbs) hc
  | queue hc => exact .queue hc
  | test hc => exact .test hc
  | set hc => exact .set hc

/-- Expired timers have lost their callbacks, none has got one. -/
theorem deref_expire (hsound : s.timers.Sound []) {addr p : Nat} {now : UInt64}
    (h : ((s.timers.listExpiredCb addr now).1.deref p).cb = some c) :
    (s.timers.deref p).cb = some c := by
  rw [hsound.ordered.deref_listExpiredCb] at h
  split at h
  · unfold TimerManager.fired at h
    split at h
    · exact h
    · cases h
  · exact h

/-- An expired callback was pending before. -/
theorem pending_of_expire (hsound : s.timers.Sound []) {addr : Nat} {now : UInt64}
    (h : Callbacks.Pending { s with
      timers := (s.timers.listExpiredCb addr now).1
      batches := s.batches ++ [(s.timers.listExpiredCb addr now).2.filterMap id] } c) :
    s.Pending c := by
  obtain hleft | hcancel := h
  · refine Or.inl ?_
    cases hleft with
    | timer p hp => exact .timer p (deref_expire hsound hp)
    | batch cbs hcbs hc =>
      rcases List.mem_append.mp hcbs with hcbs | hcbs
      · exact .batch cbs hcbs hc
      · rw [List.mem_singleton.mp hcbs, hsound.ordered.listExpiredCb_cbs, List.mem_filterMap] at hc
        obtain ⟨cb, hcb, rfl⟩ := hc
        obtain ⟨p, -, hp⟩ := List.mem_map.mp hcb
        exact .timer p hp
    | queue hc => exact .queue hc
    | test hc => exact .test hc
    | set hc => exact .set hc
  · exact Or.inr hcancel

/-- `schedule` moves a batch into the queue. -/
theorem left_push {i : Nat} {cbs : List Callback} (hi : s.batches[i]? = some cbs) (h : s.Left c) :
    Callbacks.Left { s with batches := s.batches.eraseIdx i, queue := s.queue ++ cbs } c := by
  cases h with
  | timer p hp => exact .timer p hp
  | batch cbs' hcbs hc =>
    by_cases heq : cbs' = cbs
    · subst heq
      exact .queue (List.mem_append_right _ hc)
    · exact .batch cbs' (mem_eraseIdx_of_ne hcbs hi heq) hc
  | queue hc => exact .queue (List.mem_append_left _ hc)
  | test hc => exact .test hc
  | set hc => exact .set hc

/-- So was one that is put into the queue. -/
theorem pending_of_push {i : Nat} {cbs : List Callback} (hi : s.batches[i]? = some cbs)
    (h : Callbacks.Pending { s with batches := s.batches.eraseIdx i, queue := s.queue ++ cbs } c) :
    s.Pending c := by
  obtain hleft | hcancel := h
  · refine Or.inl ?_
    cases hleft with
    | timer p hp => exact .timer p hp
    | batch cbs' hcbs hc => exact .batch cbs' (List.mem_of_mem_eraseIdx hcbs) hc
    | queue hc =>
      rcases List.mem_append.mp hc with hc | hc
      · exact .queue hc
      · exact .batch cbs (List.mem_of_getElem? hi) hc
    | test hc => exact .test hc
    | set hc => exact .set hc
  · exact Or.inr hcancel

/-- A worker takes a callback from the queue and runs it. -/
theorem left_take {i : Nat} (hi : s.queue[i]? = some c') (h : s.Left c) :
    Callbacks.Left
      { s with queue := s.queue.eraseIdx i, running := s.running ++ [(c', .test)] } c := by
  cases h with
  | timer p hp => exact .timer p hp
  | batch cbs hcbs hc => exact .batch cbs hcbs hc
  | queue hc =>
    by_cases heq : c = c'
    · subst heq
      exact .test (List.mem_append_right _ (List.mem_singleton.mpr rfl))
    · exact .queue (mem_eraseIdx_of_ne hc hi heq)
  | test hc => exact .test (List.mem_append_left _ hc)
  | set hc => exact .set (List.mem_append_left _ hc)

theorem pending_of_take {i : Nat} (hi : s.queue[i]? = some c')
    (h : Callbacks.Pending
      { s with queue := s.queue.eraseIdx i, running := s.running ++ [(c', .test)] } c) :
    s.Pending c := by
  have hold {stage : Stage} (hc : (c, stage) ∈ s.running ++ [(c', .test)]) :
      (c, stage) ∈ s.running ∨ c = c' := by
    rcases List.mem_append.mp hc with hc | hc
    · exact Or.inl hc
    · exact Or.inr (Prod.mk.inj (List.mem_singleton.mp hc)).1
  have htaken (heq : c = c') : s.Left c := heq ▸ .queue (List.mem_of_getElem? hi)
  obtain hleft | hcancel := h
  · refine Or.inl ?_
    cases hleft with
    | timer p hp => exact .timer p hp
    | batch cbs hcbs hc => exact .batch cbs hcbs hc
    | queue hc => exact .queue (List.mem_of_mem_eraseIdx hc)
    | test hc =>
      obtain hc | heq := hold hc
      · exact .test hc
      · exact htaken heq
    | set hc =>
      obtain hc | heq := hold hc
      · exact .set hc
      · exact htaken heq
  · obtain hc | heq := hold hcancel
    · exact Or.inr hc
    · exact Or.inl (htaken heq)

/-- A callback that runs goes on, or comes to its end. -/
theorem left_running {running : List (Callback × Stage)}
    (htest : (c, .test) ∈ s.running → (c, .test) ∈ running ∨ (c, .set) ∈ running)
    (hset : (c, .set) ∈ s.running → (c, .set) ∈ running) (h : s.Left c) :
    Callbacks.Left { s with running := running } c := by
  cases h with
  | timer p hp => exact .timer p hp
  | batch cbs hcbs hc => exact .batch cbs hcbs hc
  | queue hc => exact .queue hc
  | test hc =>
    obtain hc | hc := htest hc
    · exact .test hc
    · exact .set hc
  | set hc => exact .set (hset hc)

theorem pending_of_running {running : List (Callback × Stage)}
    (hrunning : ∀ stage, (c, stage) ∈ running → ∃ stage, (c, stage) ∈ s.running)
    (h : Callbacks.Pending { s with running := running } c) : s.Pending c := by
  have hold {stage : Stage} (hc : (c, stage) ∈ running) : s.Pending c := by
    obtain ⟨stage, hc⟩ := hrunning stage hc
    cases stage with
    | test => exact Or.inl (.test hc)
    | set => exact Or.inl (.set hc)
    | cancel => exact Or.inr hc
  obtain hleft | hcancel := h
  · cases hleft with
    | timer p hp => exact Or.inl (.timer p hp)
    | batch cbs hcbs hc => exact Or.inl (.batch cbs hcbs hc)
    | queue hc => exact Or.inl (.queue hc)
    | test hc => exact hold hc
    | set hc => exact hold hc
  · exact hold hcancel

/-- After the step of the callback at `i`, every callback that runs did so before. -/
theorem running_of_mem_set {i : Nat} {stage stage' stage'' : Stage}
    (hi : s.running[i]? = some (c', stage)) (h : (c, stage'') ∈ s.running.set i (c', stage')) :
    ∃ stage, (c, stage) ∈ s.running := by
  rcases List.mem_or_eq_of_mem_set h with h | h
  · exact ⟨_, h⟩
  · obtain ⟨rfl, -⟩ := Prod.mk.inj h
    exact ⟨stage, List.mem_of_getElem? hi⟩

end Way

end Xupeng.Hook
