import Xupeng.Models.IOManager.Native.Manager

/-!
# What a step of a thread can be

Code that uses the manager, the loop body of `idle` and the workers, each with all its
steps. What a step keeps is proved along these cases; `act`, `loop` and `move` are not
unfolded again.
-/

namespace Xupeng.IOManager

variable {C : Type} {m m' : Members C} {w w' : Worker C}

/-! ## Code that uses the manager -/

/-- The steps of code that uses the manager, on the running fiber `me`. -/
inductive Members.Acted (me : Option (FdContext.Caller Target Nat)) (m : Members C) :
    Activity C → Act C → Members C → Activity C → Prop
  | schedule (fts : List (FiberAndThread C)) :
      Acted me m (.owed []) (.schedule fts)
        { m with scheduler := m.scheduler.schedule fts } (.owed [])
  | newFiber (cb : C) :
      Acted me m (.owed []) (.newFiber cb)
        { m with scheduler := m.scheduler.newFiber cb } (.owed [])
  | addTimer (addr : Nat) (now ms : UInt64) (cb : Option C) (recurring : Bool) :
      Acted me m (.owed []) (.addTimer addr now ms cb recurring)
        { m with timers := (m.timers.addTimer addr now ms cb recurring).1 } (.owed [])
  | cancel {timer : Nat} {r : TimerManager C × Bool} (found : m.timers.cancel timer = some r) :
      Acted me m (.owed []) (.cancel timer) { m with timers := r.1 } (.owed [])
  | refresh (timer : Nat) (now : UInt64) :
      Acted me m (.owed []) (.refresh timer now)
        { m with timers := (m.timers.refresh timer now).1 } (.owed [])
  | reset (timer : Nat) (ms : UInt64) (from_now : Bool) (now : UInt64) :
      Acted me m (.owed []) (.reset timer ms from_now now)
        { m with timers := (m.timers.reset timer ms from_now now).1 } (.owed [])
  | enter (call : Call Target Nat C) :
      Acted me m (.owed []) (.enter call) m
        (((m.table.lookup call).map (.call call ·)).getD (.owed []))
  | grow {call : Call Target Nat C} {p : Nat}
      (found : (m.table.grow call).fdContexts[call.fd]? = some p) :
      Acted me m (.call call .grow) .grow { m with table := m.table.grow call }
        (.call call (.locked p))
  /-- The table is still too short. -/
  | short {call : Call Target Nat C}
      (missing : (m.table.grow call).fdContexts[call.fd]? = none) :
      Acted me m (.call call .grow) .grow
        { m with table := m.table.grow call, abort := some .outOfBounds } (.call call .grow)
  | commit {call call' : Call Target Nat C} {p : Nat} {rt : Bool}
      {r : Members C × List (Effect Target Nat C)} (resolved : call.resolve me = some call')
      (ran : m.runSection p rt call'.toSection = some r) :
      Acted me m (.call call (.locked p)) (.commit rt) r.1 (.owed r.2)
  | effect (e : Effect Target Nat C) (es : List (Effect Target Nat C)) :
      Acted me m (.owed (e :: es)) .effect (m.perform e) (.owed es)

/-- Every call in a task is one of these. -/
theorem Members.acted {me : Option (FdContext.Caller Target Nat)}
    {activity activity' : Activity C} {a : Act C}
    (h : m.act me activity a = some (m', activity')) : m.Acted me activity a m' activity' := by
  unfold Members.act at h
  split at h
  · cases h
    exact .schedule _
  · cases h
    exact .newFiber _
  · cases h
    exact .addTimer _ _ _ _ _
  · obtain ⟨r, hr, hm⟩ := Option.map_eq_some_iff.mp h
    cases hm
    exact .cancel hr
  · cases h
    exact .refresh _ _
  · cases h
    exact .reset _ _ _ _
  · cases h
    exact .enter _
  · dsimp only at h
    split at h
    · rename_i hfound
      cases h
      exact .grow hfound
    · rename_i hmissing
      cases h
      exact .short hmissing
  · obtain ⟨call', hcall, h⟩ := Option.bind_eq_some_iff.mp h
    obtain ⟨r, hr, h⟩ := Option.bind_eq_some_iff.mp h
    cases h
    exact .commit hcall hr
  · cases h
    exact .effect _ _
  · cases h

/-! ## Workers -/

/-- The steps of the loop body of `idle` after `stopping()`. -/
inductive Worker.Looped (m : Members C) (w : Worker C) :
    Position C → Move C → Members C → Worker C → Prop
  | wait {events batch : List (Nat × EpollEvents)}
      (reported : events.mapM (report m.table.interest) = some batch) :
      Looped m w .wait (.wait events) m (w.goto (.idle (.expire batch)))
  | expire (batch : List (Nat × EpollEvents)) (addr : Nat) (now : UInt64) :
      Looped m w (.expire batch) (.expire addr now)
        { m with timers := (m.timers.listExpiredCb addr now).1 }
        (w.goto (.idle (.push (m.timers.listExpiredCb addr now).2 batch)))
  | push (cbs : List (Option C)) (batch : List (Nat × EpollEvents)) :
      Looped m w (.push cbs batch) .push
        { m with scheduler := m.scheduler.schedule (cbs.map fun cb => ⟨none, cb, none⟩) }
        (w.goto (.idle (.process [] batch)))
  | process {p : Nat} {event : EpollEvents} {batch : List (Nat × EpollEvents)} {rt : Bool}
      {r : Members C × List (Effect Target Nat C)}
      (ran : m.runSection p rt (.process event) = some r) :
      Looped m w (.process [] ((p, event) :: batch)) (.process rt) r.1
        (w.goto (.idle (.process r.2 batch)))
  | effect (e : Effect Target Nat C) (es : List (Effect Target Nat C))
      (batch : List (Nat × EpollEvents)) :
      Looped m w (.process (e :: es) batch) .effect (m.perform e)
        (w.goto (.idle (.process es batch)))
  | swapOut : Looped m w (.process [] []) .swapOut m (w.swapOutIdle false)

/-- Every statement of the loop is one of these. -/
theorem Worker.looped {i : Position C} {mv : Move C} (h : w.loop m i mv = some (m', w')) :
    w.Looped m i mv m' w' := by
  unfold Worker.loop at h
  split at h
  · obtain ⟨batch, hbatch, hr⟩ := Option.map_eq_some_iff.mp h
    cases hr
    exact .wait hbatch
  · cases h
    exact .expire _ _ _
  · cases h
    exact .push _ _
  · obtain ⟨r, hr, hm⟩ := Option.map_eq_some_iff.mp h
    cases hm
    exact .process hr
  · cases h
    exact .effect _ _ _
  · cases h
    exact .swapOut
  · cases h

/-- The steps of the worker with this thread id. -/
inductive Worker.Moved (thread : Nat) (m : Members C) (w : Worker C) :
    Move C → Members C → Worker C → Prop
  | advance {r : Scheduler C × Worker C} (step : w.advance thread m.scheduler = some r) :
      Moved thread m w .advance { m with scheduler := r.1 } r.2
  | act {f : Nat} {own : Bool} {activity : Activity C} {a : Act C} {r : Members C × Activity C}
      (pc : w.pc = .exec f own activity)
      (step : m.act (some ⟨.this, f, (m.scheduler.fiber f).state⟩) activity a = some r) :
      Moved thread m w (.act a) r.1 (w.goto (.exec f own r.2))
  | leave {f : Nat} {own : Bool} {exit : Fiber.Exit} {r : Scheduler C × Worker C}
      (pc : w.pc = .exec f own (.owed [])) (step : w.leave exit m.scheduler = some r) :
      Moved thread m w (.leave exit) { m with scheduler := r.1 } r.2
  | probeIdle {now : UInt64} {p : Probe} (pc : w.pc = .idle (.probe p)) :
      Moved thread m w (.probe now) (Worker.probe now m p).1
        (w.probeIdle p (Worker.probe now m p).2)
  | probeStop {now : UInt64} {first : Bool} {p : Probe} (pc : w.pc = .ask first (.probe p)) :
      Moved thread m w (.probe now) (Worker.probe now m p).1
        (w.probeStop first p (Worker.probe now m p).2)
  | loop {i : Position C} {mv : Move C} {m' : Members C} {w' : Worker C} (pc : w.pc = .idle i)
      (step : w.loop m i mv = some (m', w')) : Moved thread m w mv m' w'

/-- Every move of a worker is one of these. -/
theorem Worker.moved {thread : Nat} {mv : Move C} (h : w.move thread m mv = some (m', w')) :
    w.Moved thread m mv m' w' := by
  unfold Worker.move at h
  split at h
  · obtain ⟨r, hr, hm⟩ := Option.map_eq_some_iff.mp h
    cases hm
    exact .advance hr
  · split at h
    · rename_i hpc
      obtain ⟨r, hr, hm⟩ := Option.map_eq_some_iff.mp h
      cases hm
      exact .act hpc hr
    · cases h
  · split at h
    · rename_i hpc
      obtain ⟨r, hr, hm⟩ := Option.map_eq_some_iff.mp h
      cases hm
      exact .leave hpc hr
    · cases h
  · split at h
    · rename_i hpc
      cases h
      exact .probeIdle hpc
    · rename_i hpc
      cases h
      exact .probeStop hpc
    · cases h
  · split at h
    · rename_i hpc
      exact .loop hpc h
    · cases h

end Xupeng.IOManager
