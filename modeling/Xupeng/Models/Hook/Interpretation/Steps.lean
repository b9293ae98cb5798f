import Xupeng.Models.Hook.Native.System

/-!
# What a step can do

Every step of a fiber moves that fiber and, beyond the process and the queue of fibers,
does at most one thing to the shared objects: it makes a `timer_info`, arms or cancels a
timer, or runs a section of the event table. The steps of the workers move no fiber; they
carry callbacks from the timers to the event table.
-/

namespace Xupeng.Hook

open IOManager (Abort EpollEvents Result Section)

/-- The timer that the call holds. -/
def Point.timer : Point → Option Nat
  | .register timer | .grow timer | .locked timer _ | .unregistered timer | .yield timer
  | .suspended timer | .resumed timer => timer
  | .retry | .arm | .check | .finish => none

/-- The context that `addEvent` has found for the call. -/
def Point.found : Point → Option ContextPtr
  | .locked _ fd_ctx => some fd_ctx
  | _ => none

/-- The moves of a fiber without an effect on shared objects. A call keeps its timer in `addEvent`
and across `YieldToHold`; the other moves within a call are between points without one. -/
inductive Goes : Pc → Pc → Prop
  | user (pc : Pc) (last : Option Ret) : Goes pc (.user last)
  | closing (pc : Pc) (fd : Int) (stage : CloseStage) : Goes pc (.closing fd stage)
  | waiting (w : Wait) (p p' : Point) (h : p'.timer = none) (hfound : p'.found = none) :
    Goes (.waiting w p) (.waiting w p')
  | short (w : Wait) (timer : Option Nat) :
    Goes (.waiting w (.register timer)) (.waiting w (.grow timer))
  | yield (w : Wait) (timer : Option Nat) :
    Goes (.waiting w (.yield timer)) (.waiting w (.suspended timer))
  | resume (w : Wait) (timer : Option Nat) :
    Goes (.waiting w (.suspended timer)) (.waiting w (.resumed timer))

/-- The contexts and the queue after a section. -/
def System.after (p : ContextPtr) (r : Result Unit Nat Empty) (s : System) : System :=
  { s with
    contexts := Function.update s.contexts p r.ctx
    ready := s.ready ++ r.effects.filterMap scheduled }

/-- The steps of the fiber `f`, by what they do. -/
inductive Moved (f : Nat) (s : System) : System → Prop
  | go (pc pc' : Pc) (process : Process) (ready : List Nat) (h : s.fibers[f]? = some pc)
    (hgoes : Goes pc pc') : Moved f s ({ s with process := process, ready := ready }.goto f pc')
  | enter (last : Option Ret) (fn : Fun) (fd : Int) (timeout : UInt64) (p : Point)
    (process : Process) (h : s.fibers[f]? = some (.user last)) (hp : p.timer = none)
    (hfound : p.found = none) : Moved f s ({ s with process := process }.enter f fn fd timeout p)
  | arm (w : Wait) (addr : Nat) (now : UInt64) (timers : TimerManager Callback)
    (h : s.fibers[f]? = some (.waiting w .arm))
    (hadd : s.timers.step (.addTimer addr now w.timeout (w.callback s.timers.heap.length) false) =
      some timers) :
    Moved f s
      ({ s with timers := timers }.goto f (.waiting w (.register (some s.timers.heap.length))))
  | found (w : Wait) (timer : Option Nat) (p : ContextPtr)
    (h : s.fibers[f]? = some (.waiting w (.register timer))) (hp : s.lookup w.fd.toNat = some p) :
    Moved f s (s.goto f (.waiting w (.locked timer p)))
  | grow (w : Wait) (timer : Option Nat) (p : ContextPtr)
    (h : s.fibers[f]? = some (.waiting w (.grow timer)))
    (hp : (s.contextResize (w.fd.toNat * 3 / 2)).fdContexts[w.fd.toNat]? = some p) :
    Moved f s ({ s with toEventTable := s.contextResize (w.fd.toNat * 3 / 2) }.goto f
      (.waiting w (.locked timer p)))
  | register (w : Wait) (timer : Option Nat) (p : ContextPtr) (rt : Bool)
    (r : Result Unit Nat Empty) (h : s.fibers[f]? = some (.waiting w (.locked timer p)))
    (hadd : (s.contexts p).addEvent ⟨(), f, .EXEC⟩ w.fd.toNat w.fn.event none rt = .ok r) :
    Moved f s ((s.after p r).goto f
      (.waiting w (if r.success then .yield timer else .unregistered timer)))
  | stop (w : Wait) (p : Point) (timer : Nat) (pc : Pc) (timers : TimerManager Callback)
    (h : s.fibers[f]? = some (.waiting w p)) (htimer : p.timer = some timer)
    (hcancel : s.timers.step (.cancel timer) = some timers) (hgoes : Goes (.waiting w .check) pc) :
    Moved f s ({ s with timers := timers }.goto f pc)
  | cancelAll (fd : Int) (p : ContextPtr) (rt : Bool) (r : Result Unit Nat Empty)
    (hall : (s.contexts p).cancelAll fd.toNat rt = .ok r) :
    Moved f s ((s.after p r).goto f (.closing fd .del))
  | abort (a : Abort) : Moved f s { s with abort := some a }

/-- The steps of the workers, by what they do. -/
inductive Served (s : System) : Step → System → Prop
  | release (fd : Nat) (rt : Bool) (release : Release) (p : ContextPtr)
    (r : Result Unit Nat Empty) (h : (release.toSection fd).exec rt (s.contexts p) = .ok r) :
    Served s (.release fd rt release) (s.after p r)
  | absent (fd : Nat) (rt : Bool) (release : Release) : Served s (.release fd rt release) s
  | process (p : ContextPtr) (rt : Bool) (event : EpollEvents) (r : Result Unit Nat Empty)
    (h : (s.contexts p).process event rt = .ok r) : Served s (.process p rt event) (s.after p r)
  | expire (addr : Nat) (now : UInt64) :
    Served s (.expire addr now) { s with
      timers := (s.timers.listExpiredCb addr now).1
      batches := s.batches ++ [(s.timers.listExpiredCb addr now).2.filterMap id] }
  | push (i : Nat) (cbs : List Callback) (h : s.batches[i]? = some cbs) :
    Served s (.push i) { s with batches := s.batches.eraseIdx i, queue := s.queue ++ cbs }
  | take (i : Nat) (c : Callback) (h : s.queue[i]? = some c) :
    Served s (.take i)
      { s with queue := s.queue.eraseIdx i, running := s.running ++ [(c, .test)] }
  | test (i : Nat) (c : Callback) (h : s.running[i]? = some (c, .test))
    (hgo : s.alive c.winfo ∧ s.cancelled c.winfo = 0) :
    Served s (.test i) { s with running := s.running.set i (c, .set) }
  | drop (i : Nat) (c : Callback) (h : s.running[i]? = some (c, .test))
    (hdrop : ¬ (s.alive c.winfo ∧ s.cancelled c.winfo = 0)) :
    Served s (.test i) { s with running := s.running.eraseIdx i }
  | set (i : Nat) (c : Callback) (h : s.running[i]? = some (c, .set)) :
    Served s (.set i) { s with
      infos := s.infos.set c.winfo ETIMEDOUT
      running := s.running.set i (c, .cancel) }
  | cancel (i : Nat) (rt : Bool) (c : Callback) (p : ContextPtr) (r : Result Unit Nat Empty)
    (h : s.running[i]? = some (c, .cancel)) (hp : s.lookup c.fd.toNat = some p)
    (hr : (s.contexts p).cancelEvent c.fd.toNat c.event rt = .ok r) :
    Served s (.cancel i rt) { s.after p r with running := s.running.eraseIdx i }
  | missed (i : Nat) (rt : Bool) (c : Callback) (h : s.running[i]? = some (c, .cancel))
    (hp : s.lookup c.fd.toNat = none) :
    Served s (.cancel i rt) { s with running := s.running.eraseIdx i }
  | abort (a : Step) (e : Abort) : Served s a { s with abort := some e }

/-- The steps of a fiber in which an assertion may fail. -/
inductive Aborts : Pc → Act → Prop
  | grow (w : Wait) (timer : Option Nat) : Aborts (.waiting w (.grow timer)) .grow
  | addEvent (w : Wait) (timer : Option Nat) (p : ContextPtr) (rt : Bool) :
    Aborts (.waiting w (.locked timer p)) (.addEvent rt)
  | cancelAll (fd : Int) (rt : Bool) : Aborts (.closing fd .cancelAll) (.cancelAll rt)

/-- The steps of a fiber, one by one: it goes on at another place, with what the step has changed
beside it. -/
inductive Proceeds (s : System) (f : Nat) : Pc → Act → System → Pc → Prop
  -- the code of the program
  | close (last : Option Ret) (connectTimeout : UInt64) (fd : Int) (answer : Answer) :
    Proceeds s f (.user last) (.call connectTimeout (.close fd) answer) s (.closing fd .get)
  | ret (last : Option Ret) (connectTimeout : UInt64) (c : SysCall) (answer : Answer)
    (prog : Program Empty Process Reply) (reply : Reply) (process : Process) (r : Ret)
    (hcall : Hook.call true connectTimeout 1 c answer = some prog)
    (hprog : prog s.process = .ok reply process)
    (hreply : reply = .ret r ∨ r = .ok 0 ∧ ∃ ms, reply = .sleep ms) :
    Proceeds s f (.user last) (.call connectTimeout c answer) { s with process := process }
      (.user (some r))
  | setTimeout (last : Option Ret) (fd type : Int) (v : UInt64) (process : Process) :
    Proceeds s f (.user last) (.setTimeout fd type v) { s with process := process } (.user last)
  | enterIo (last : Option Ret) (connectTimeout : UInt64) (fn : IoFun) (fd : Int)
    (answer : Answer) (timeout : UInt64) (process : Process)
    (hprog : io true fn fd answer s.process = .ok (.retry timeout) process) :
    Proceeds s f (.user last) (.call connectTimeout (.io fn fd) answer)
      { s with process := process, infos := s.infos ++ [0] }
      (.waiting ⟨.io fn, fd, timeout, s.infos.length⟩ .retry)
  | enterConnect (last : Option Ret) (connectTimeout : UInt64) (fd : Int) (addr addrlen : Nat)
    (answer : Answer) (timeout : UInt64) (process : Process) :
    Proceeds s f (.user last) (.call connectTimeout (.connect fd addr addrlen) answer)
      { s with process := process, infos := s.infos ++ [0] }
      (.waiting ⟨.connect addr addrlen, fd, timeout, s.infos.length⟩ .arm)
  -- a call that may wait
  | again (w : Wait) (answer : Answer) (process : Process) (hio : w.fn.isConnect = false) :
    Proceeds s f (.waiting w .retry) (.retry answer) { s with process := process }
      (.waiting w .retry)
  | wait (w : Wait) (answer : Answer) (process : Process) (hio : w.fn.isConnect = false) :
    Proceeds s f (.waiting w .retry) (.retry answer) { s with process := process }
      (.waiting w .arm)
  | done (w : Wait) (answer : Answer) (process : Process) (r : Ret)
    (hio : w.fn.isConnect = false) :
    Proceeds s f (.waiting w .retry) (.retry answer) { s with process := process }
      (.user (some r))
  | untimed (w : Wait) (addr : Nat) (now : UInt64) :
    Proceeds s f (.waiting w .arm) (.arm addr now) s (.waiting w (.register none))
  | arm (w : Wait) (addr : Nat) (now : UInt64) (timers : TimerManager Callback)
    (hadd : s.timers.step (.addTimer addr now w.timeout (w.callback s.timers.heap.length) false) =
      some timers) :
    Proceeds s f (.waiting w .arm) (.arm addr now) { s with timers := timers }
      (.waiting w (.register (some s.timers.heap.length)))
  | found (w : Wait) (timer : Option Nat) (p : ContextPtr) (hp : s.lookup w.fd.toNat = some p) :
    Proceeds s f (.waiting w (.register timer)) .lookup s (.waiting w (.locked timer p))
  | short (w : Wait) (timer : Option Nat) :
    Proceeds s f (.waiting w (.register timer)) .lookup s (.waiting w (.grow timer))
  | grow (w : Wait) (timer : Option Nat) (p : ContextPtr)
    (hp : (s.contextResize (w.fd.toNat * 3 / 2)).fdContexts[w.fd.toNat]? = some p) :
    Proceeds s f (.waiting w (.grow timer)) .grow
      { s with toEventTable := s.contextResize (w.fd.toNat * 3 / 2) } (.waiting w (.locked timer p))
  | register (w : Wait) (timer : Option Nat) (p : ContextPtr) (rt : Bool)
    (r : Result Unit Nat Empty)
    (hadd : (s.contexts p).addEvent ⟨(), f, .EXEC⟩ w.fd.toNat w.fn.event none rt = .ok r) :
    Proceeds s f (.waiting w (.locked timer p)) (.addEvent rt) (s.after p r)
      (.waiting w (if r.success then .yield timer else .unregistered timer))
  | giveUp (w : Wait) (timer : Option Nat) (u : System) (hstop : s.stop timer = some u)
    (hio : w.fn.isConnect = false) :
    Proceeds s f (.waiting w (.unregistered timer)) .stop u (.user (some ⟨-1, none⟩))
  | skip (w : Wait) (timer : Option Nat) (u : System) (hstop : s.stop timer = some u)
    (hconnect : w.fn.isConnect = true) :
    Proceeds s f (.waiting w (.unregistered timer)) .stop u (.waiting w .finish)
  | yield (w : Wait) (timer : Option Nat) :
    Proceeds s f (.waiting w (.yield timer)) .yield s (.waiting w (.suspended timer))
  | resume (w : Wait) (timer : Option Nat) (h : f ∈ s.ready) :
    Proceeds s f (.waiting w (.suspended timer)) .resume { s with ready := s.ready.erase f }
      (.waiting w (.resumed timer))
  | stop (w : Wait) (timer : Option Nat) (u : System) (hstop : s.stop timer = some u) :
    Proceeds s f (.waiting w (.resumed timer)) .stop u (.waiting w .check)
  | timedOut (w : Wait) (h : s.cancelled w.tinfo ≠ 0) :
    Proceeds s f (.waiting w .check) .check s (.user (some (.error (s.cancelled w.tinfo))))
  | retry (w : Wait) (h : s.cancelled w.tinfo = 0) (hio : w.fn.isConnect = false) :
    Proceeds s f (.waiting w .check) .check s (.waiting w .retry)
  | goOn (w : Wait) (h : s.cancelled w.tinfo = 0) (hconnect : w.fn.isConnect = true) :
    Proceeds s f (.waiting w .check) .check s (.waiting w .finish)
  | unknown (w : Wait) (errno : Int) :
    Proceeds s f (.waiting w .finish) (.getsockopt (.fails errno)) s (.user (some (.error errno)))
  | connected (w : Wait) :
    Proceeds s f (.waiting w .finish) (.getsockopt (.succeeds 0)) s (.user (some (.ok 0)))
  | refused (w : Wait) (error : Int) (h : error ≠ 0) :
    Proceeds s f (.waiting w .finish) (.getsockopt (.succeeds error)) s
      (.user (some (.error error)))
  -- `close`
  | get (fd : Int) (process : Process) (stage : CloseStage) :
    Proceeds s f (.closing fd .get) .get { s with process := process } (.closing fd stage)
  | cancelAll (fd : Int) (p : ContextPtr) (rt : Bool) (r : Result Unit Nat Empty)
    (hall : (s.contexts p).cancelAll fd.toNat rt = .ok r) :
    Proceeds s f (.closing fd .cancelAll) (.cancelAll rt) (s.after p r) (.closing fd .del)
  | absent (fd : Int) (rt : Bool) :
    Proceeds s f (.closing fd .cancelAll) (.cancelAll rt) s (.closing fd .del)
  | del (fd : Int) (process : Process) :
    Proceeds s f (.closing fd .del) .del { s with process := process } (.closing fd .close)
  | closed (fd : Int) (answer : Answer) (process : Process) (r : Ret) :
    Proceeds s f (.closing fd .close) (.close answer) { s with process := process }
      (.user (some r))

namespace System

variable {s t : System} {f : Nat}

/-- At the start no call is in progress. -/
theorem init_not_waiting {n : Nat} {now : UInt64} {k : Kernel} {w : Wait} {p : Point} :
    (init n now k).fibers[f]? ≠ some (.waiting w p) := by
  intro h
  have hmem := List.mem_of_getElem? h
  cases (List.mem_replicate.mp hmem).2

theorem goto_self {pc : Pc} (h : s.fibers[f]? = some pc) (pc' : Pc) :
    (s.goto f pc').fibers[f]? = some pc' := by
  obtain ⟨hlt, -⟩ := List.getElem?_eq_some_iff.mp h
  exact List.getElem?_set_self hlt

/-- A program that is executed has returned. -/
theorem exec_eq_some {β : Type} {prog : Program Empty Process β}
    {next : β → System → Option System} (h : s.exec prog next = some t) :
    ∃ b process, prog s.process = .ok b process ∧
      next b { s with process := process } = some t := by
  unfold exec at h
  split at h
  · exact ⟨_, _, ‹_›, h⟩
  · cases h

/-- A section aborts the process, or leaves its context and goes on. -/
theorem runSection_cases (p : ContextPtr) (rt : Bool) (sec : Section Unit Nat Empty)
    (next : Bool → System → System) (s : System) :
    (∃ a, s.runSection p rt sec next = { s with abort := some a }) ∨
      ∃ r, sec.exec rt (s.contexts p) = .ok r ∧
        s.runSection p rt sec next = next r.success (s.after p r) := by
  unfold runSection
  split
  · exact Or.inl ⟨_, rfl⟩
  · exact Or.inr ⟨_, ‹_›, rfl⟩

/-- A call that cancels events does nothing if the table is too short for its descriptor. -/
theorem runCall_cases (fd : Nat) (rt : Bool) (sec : Section Unit Nat Empty)
    (next : System → System) (s : System) :
    (∃ a, s.runCall fd rt sec next = { s with abort := some a }) ∨
      (s.lookup fd = none ∧ s.runCall fd rt sec next = next s) ∨
        ∃ p r, s.lookup fd = some p ∧ sec.exec rt (s.contexts p) = .ok r ∧
          s.runCall fd rt sec next = next (s.after p r) := by
  unfold runCall
  cases hp : s.lookup fd with
  | none => exact Or.inr (Or.inl ⟨rfl, rfl⟩)
  | some p =>
    rcases runSection_cases p rt sec (fun _ => next) s with habort | ⟨r, hr, hs⟩
    · exact Or.inl habort
    · exact Or.inr (Or.inr ⟨p, r, rfl, hr, hs⟩)

/-- The process aborts in a section of the step, or the fiber goes on. -/
def Ended (f : Nat) (pc : Pc) (a : Act) (s t : System) : Prop :=
  (∃ e, t = { s with abort := some e } ∧ Aborts pc a) ∨
    ∃ u pc', t = u.goto f pc' ∧ Proceeds s f pc a u pc'

theorem Ended.go {pc pc' : Pc} {a : Act} {u : System} (h : Proceeds s f pc a u pc') :
    Ended f pc a s (u.goto f pc') :=
  Or.inr ⟨u, pc', rfl, h⟩

/-- A call of the user ends in one of these ways. -/
theorem call_ended {last : Option Ret} {connectTimeout : UInt64} {c : SysCall} {answer : Answer}
    (h : s.call f connectTimeout c answer = some t) :
    Ended f (.user last) (.call connectTimeout c answer) s t := by
  unfold call at h
  split at h
  · cases h
    exact .go (.close ..)
  · obtain ⟨prog, hcall, h⟩ := Option.bind_eq_some_iff.mp h
    obtain ⟨reply, process, hprog, h⟩ := exec_eq_some h
    split at h <;> cases h
    · exact .go (.ret _ _ _ _ prog _ process _ hcall hprog (Or.inl rfl))
    · exact .go (.ret _ _ _ _ prog _ process _ hcall hprog (Or.inr ⟨rfl, _, rfl⟩))
    · cases hcall
      exact .go (.enterIo _ _ _ _ _ _ process hprog)
    · exact .go (.enterConnect _ _ _ _ _ _ _ process)

/-- So does a statement of a call that waits. -/
theorem wait_ended {w : Wait} {p : Point} {a : Act} (h : s.wait f w p a = some t) :
    Ended f (.waiting w p) a s t := by
  unfold wait at h
  split at h
  · -- the original function
    split at h
    · rename_i fn hfn
      have hio : w.fn.isConnect = false := by rw [hfn]; rfl
      obtain ⟨turn, process, -, h⟩ := exec_eq_some h
      split at h <;> cases h
      · exact .go (.again w _ process hio)
      · exact .go (.wait w _ process hio)
      · exact .go (.done w _ process _ hio)
    · cases h
  · -- the timer
    split at h
    · cases h
      exact .go (.untimed ..)
    · obtain ⟨timers, hadd, rfl⟩ := Option.map_eq_some_iff.mp h
      exact .go (.arm w _ _ timers hadd)
  · -- the event
    split at h <;> cases h
    · exact .go (.found w _ _ ‹_›)
    · exact .go (.short ..)
  · dsimp only at h
    split at h <;> cases h
    · exact .go (.grow w _ _ ‹_›)
    · exact Or.inl ⟨.outOfBounds, rfl, .grow ..⟩
  · rename_i timer p rt
    cases h
    obtain ⟨a, ha⟩ | ⟨r, hr, hs⟩ := runSection_cases p rt
      (.addEvent ⟨(), f, .EXEC⟩ w.fd.toNat w.fn.event none)
      (fun success s =>
        s.goto f (.waiting w (if success then .yield timer else .unregistered timer))) s
    · rw [ha]
      exact Or.inl ⟨a, rfl, .addEvent ..⟩
    · rw [hs]
      exact .go (.register w timer p rt r hr)
  · obtain ⟨u, hstop, rfl⟩ := Option.map_eq_some_iff.mp h
    split
    · rename_i hfn
      exact .go (.giveUp w _ u hstop (by rw [hfn]; rfl))
    · rename_i hfn
      exact .go (.skip w _ u hstop (by rw [hfn]; rfl))
  · cases h
    exact .go (.yield ..)
  · split at h <;> cases h
    exact .go (.resume w _ ‹_›)
  · obtain ⟨u, hstop, rfl⟩ := Option.map_eq_some_iff.mp h
    exact .go (.stop w _ u hstop)
  · split at h
    · cases h
      exact .go (.timedOut w ‹_›)
    · rename_i hzero
      split at h <;> cases h
      · rename_i hfn
        exact .go (.retry w (not_not.mp hzero) (by rw [hfn]; rfl))
      · rename_i hfn
        exact .go (.goOn w (not_not.mp hzero) (by rw [hfn]; rfl))
  · -- `SO_ERROR`
    rename_i answer
    cases h
    cases answer with
    | fails errno => exact .go (.unknown w errno)
    | succeeds error =>
      dsimp only
      split
      · rename_i hzero
        rw [hzero]
        exact .go (.connected w)
      · exact .go (.refused w error ‹_›)
  · cases h

theorem close_ended {fd : Int} {stage : CloseStage} {a : Act}
    (h : s.close f fd stage a = some t) : Ended f (.closing fd stage) a s t := by
  unfold close at h
  split at h
  · obtain ⟨ctx, process, -, h⟩ := exec_eq_some h
    cases h
    exact .go (.get fd process _)
  · rename_i rt
    cases h
    obtain ⟨a, ha⟩ | ⟨-, hs⟩ | ⟨p, r, -, hr, hs⟩ := runCall_cases fd.toNat rt
      (.cancelAll fd.toNat) (fun s => s.goto f (.closing fd .del)) s
    · rw [ha]
      exact Or.inl ⟨a, rfl, .cancelAll ..⟩
    · rw [hs]
      exact .go (.absent fd rt)
    · rw [hs]
      exact .go (.cancelAll fd p rt r hr)
  · obtain ⟨-, process, -, h⟩ := exec_eq_some h
    cases h
    exact .go (.del fd process)
  · obtain ⟨r, process, -, h⟩ := exec_eq_some h
    cases h
    exact .go (.closed fd _ process r)
  · cases h

/-- `timer->cancel()` changes the timers alone. -/
theorem stop_process {timer : Option Nat} (h : s.stop timer = some t) :
    t.process = s.process ∧ t.fibers = s.fibers ∧ t.cancelled = s.cancelled := by
  cases timer with
  | none =>
    cases h
    exact ⟨rfl, rfl, rfl⟩
  | some p =>
    obtain ⟨timers, -, rfl⟩ := Option.map_eq_some_iff.mp h
    exact ⟨rfl, rfl, rfl⟩

/-- A step of a fiber. -/
theorem step_fiber {a : Act} (h : s.step (.fiber f a) = some t) :
    ∃ pc, s.fibers[f]? = some pc ∧ s.fiber f pc a = some t := by
  unfold step at h
  split at h
  · cases h
  · exact Option.bind_eq_some_iff.mp h

/-- Every step of a fiber. -/
theorem step_ended {a : Act} (h : s.step (.fiber f a) = some t) :
    ∃ pc, s.fibers[f]? = some pc ∧ Ended f pc a s t := by
  obtain ⟨pc, hpc, h⟩ := step_fiber h
  refine ⟨pc, hpc, ?_⟩
  unfold fiber at h
  split at h
  · exact call_ended h
  · obtain ⟨-, process, -, h⟩ := exec_eq_some h
    cases h
    exact .go (.setTimeout _ _ _ _ process)
  · exact wait_ended h
  · exact close_ended h
  · cases h

/-- A step of a fiber changes no place but its own. -/
theorem proceeds_fibers {pc pc' : Pc} {a : Act} {u : System} (h : Proceeds s f pc a u pc') :
    u.fibers = s.fibers := by
  cases h with
  | giveUp w timer u hstop hio => exact (stop_process hstop).2.1
  | skip w timer u hstop hconnect => exact (stop_process hstop).2.1
  | stop w timer u hstop => exact (stop_process hstop).2.1
  | _ => rfl

/-- Where the fiber is after its step. -/
theorem proceeds_self {pc pc' : Pc} {a : Act} {u : System} (hpc : s.fibers[f]? = some pc)
    (h : Proceeds s f pc a u pc') : (u.goto f pc').fibers[f]? = some pc' := by
  rw [← proceeds_fibers h] at hpc
  exact goto_self hpc pc'

/-- Stopping the timer of a call, before the call goes on. -/
theorem stop_moved {w : Wait} {p : Point} {pc : Pc} (hpc : s.fibers[f]? = some (.waiting w p))
    (h : s.stop p.timer = some t) (hgoes : Goes (.waiting w .check) pc)
    (hfree : Goes (.waiting w p) pc) : Moved f s (t.goto f pc) := by
  cases hp : p.timer with
  | none =>
    rw [hp] at h
    cases h
    exact .go _ pc s.process s.ready hpc hfree
  | some timer =>
    rw [hp] at h
    obtain ⟨timers, hcancel, rfl⟩ := Option.map_eq_some_iff.mp h
    exact .stop w p timer pc timers hpc hp hcancel hgoes

/-- A statement that goes on is a move of its fiber. -/
theorem proceeds_moved {pc pc' : Pc} {a : Act} {u : System} (hpc : s.fibers[f]? = some pc)
    (h : Proceeds s f pc a u pc') : Moved f s (u.goto f pc') := by
  cases h with
  | close | get | absent | del => exact .go _ _ _ s.ready hpc (.closing ..)
  | ret | setTimeout | done | timedOut | unknown | connected | refused | closed =>
    exact .go _ _ _ s.ready hpc (.user ..)
  | enterIo last connectTimeout fn fd answer timeout process hprog =>
    exact .enter last (.io fn) fd timeout .retry process hpc rfl rfl
  | enterConnect last connectTimeout fd addr addrlen answer timeout process =>
    exact .enter last (.connect addr addrlen) fd timeout .arm process hpc rfl rfl
  | again | wait | untimed | retry | goOn =>
    exact .go _ _ _ s.ready hpc (.waiting _ _ _ rfl rfl)
  | arm w addr now timers hadd => exact .arm w addr now timers hpc hadd
  | found w timer p hp => exact .found w timer p hpc hp
  | short w timer => exact .go _ _ s.process s.ready hpc (.short ..)
  | grow w timer p hp => exact .grow w timer p hpc hp
  | register w timer p rt r hadd => exact .register w timer p rt r hpc hadd
  | giveUp w timer u hstop hio => exact stop_moved hpc hstop (.user ..) (.user ..)
  | skip w timer u hstop | stop w timer u hstop =>
    exact stop_moved hpc hstop (.waiting _ _ _ rfl rfl) (.waiting _ _ _ rfl rfl)
  | yield w timer => exact .go _ _ s.process s.ready hpc (.yield ..)
  | resume w timer hready => exact .go _ _ s.process _ hpc (.resume ..)
  | cancelAll fd p rt r hall => exact .cancelAll fd p rt r hall

/-- A step of a fiber in a call that may wait. -/
theorem step_waiting {w : Wait} {p : Point} {a : Act} (hpc : s.fibers[f]? = some (.waiting w p))
    (h : s.step (.fiber f a) = some t) : s.wait f w p a = some t := by
  obtain ⟨pc, hpc', h⟩ := step_fiber h
  cases hpc.symm.trans hpc'
  exact h

/-- Every step is a move of a fiber or one of the workers'. -/
theorem step_cases {a : Step} (h : s.step a = some t) :
    (∃ f act, a = .fiber f act ∧ Moved f s t) ∨ Served s a t := by
  have hstep := h
  unfold step at h
  split at h
  · cases h
  · cases a with
    | fiber f act =>
      refine Or.inl ⟨f, act, rfl, ?_⟩
      obtain ⟨pc, hpc, ⟨e, rfl, -⟩ | ⟨u, pc', rfl, hproceeds⟩⟩ := step_ended hstep
      · exact .abort e
      · exact proceeds_moved hpc hproceeds
    | release fd rt r =>
      refine Or.inr ?_
      cases h
      obtain ⟨a, hs⟩ | ⟨-, hs⟩ | ⟨p, r', -, hr, hs⟩ := runCall_cases fd rt (r.toSection fd) id s
      · rw [hs]
        exact .abort _ a
      · rw [hs]
        exact .absent fd rt r
      · rw [hs]
        exact .release fd rt r p r' hr
    | process p rt event =>
      refine Or.inr ?_
      cases h
      obtain ⟨a, hs⟩ | ⟨r, hr, hs⟩ := runSection_cases p rt (.process event) (fun _ => id) s
      · rw [hs]
        exact .abort _ a
      · rw [hs]
        exact .process p rt event r hr
    | expire addr now =>
      cases h
      exact Or.inr (.expire addr now)
    | push i =>
      obtain ⟨cbs, hi, rfl⟩ := Option.map_eq_some_iff.mp h
      exact Or.inr (.push i cbs hi)
    | take i =>
      obtain ⟨c, hi, rfl⟩ := Option.map_eq_some_iff.mp h
      exact Or.inr (.take i c hi)
    | test i =>
      dsimp only at h
      split at h
      · split at h <;> cases h
        · exact Or.inr (.test i _ ‹_› ‹_›)
        · exact Or.inr (.drop i _ ‹_› ‹_›)
      · cases h
    | set i =>
      dsimp only at h
      split at h <;> cases h
      exact Or.inr (.set i _ ‹_›)
    | cancel i rt =>
      refine Or.inr ?_
      dsimp only at h
      split at h
      · rename_i c hi
        cases h
        obtain ⟨a, hs⟩ | ⟨hp, hs⟩ | ⟨p, r, hp, hr, hs⟩ := runCall_cases c.fd.toNat rt
          (.cancelEvent c.fd.toNat c.event) (fun s => { s with running := s.running.eraseIdx i }) s
        · rw [hs]
          exact .abort _ a
        · rw [hs]
          exact .missed i rt c hi hp
        · rw [hs]
          exact .cancel i rt c p r hi hp hr
      · cases h

/-! ## What other fibers and the `timer_info` objects see -/

theorem moved_fibers_of_ne (h : Moved f s t) {g : Nat} (hg : g ≠ f) :
    t.fibers[g]? = s.fibers[g]? := by
  cases h with
  | abort a => rfl
  | _ => exact List.getElem?_set_ne (Ne.symm hg)

theorem served_fibers {a : Step} (h : Served s a t) : t.fibers = s.fibers := by
  cases h <;> rfl

/-- A fiber moves only by its own steps. -/
theorem step_fibers {a : Step} (h : s.step a = some t) {g : Nat} (ha : ∀ act, a ≠ .fiber g act) :
    t.fibers[g]? = s.fibers[g]? := by
  obtain ⟨f, act, rfl, hmoved⟩ | hserved := step_cases h
  · have hg : g ≠ f := fun hg => ha act (by rw [hg])
    exact moved_fibers_of_ne hmoved hg
  · rw [served_fibers hserved]

/-- A new `timer_info` is clear, and fibers change no other. -/
theorem moved_cancelled (h : Moved f s t) : t.cancelled = s.cancelled := by
  cases h with
  | enter last fn fd timeout p process h hp hfound =>
    funext i
    simp only [Shared.cancelled, System.enter, List.getD_eq_getElem?_getD, List.getElem?_append]
    split
    · rfl
    · rename_i hi
      rw [List.getElem?_eq_none (by omega : s.infos.length ≤ i)]
      cases i - s.infos.length <;> rfl
  | _ => rfl

/-- A flag that is set stays set. -/
theorem served_cancelled {a : Step} (h : Served s a t) {i : Nat} (hi : s.cancelled i ≠ 0) :
    t.cancelled i ≠ 0 := by
  cases h with
  | set j c hj =>
    simp only [Shared.cancelled, List.getD_eq_getElem?_getD, List.getElem?_set] at hi ⊢
    split
    · split
      · exact Int.ne_of_gt (by decide)
      · exact absurd (by rw [List.getElem?_eq_none (by omega)]; rfl) hi
    · exact hi
  | _ => exact hi

/-- A `timer_info` that has been cancelled stays so. -/
theorem step_cancelled {a : Step} (h : s.step a = some t) {i : Nat} (hi : s.cancelled i ≠ 0) :
    t.cancelled i ≠ 0 := by
  obtain ⟨f, act, rfl, hmoved⟩ | hserved := step_cases h
  · rw [moved_cancelled hmoved]
    exact hi
  · exact served_cancelled hserved hi

end System

end Xupeng.Hook
