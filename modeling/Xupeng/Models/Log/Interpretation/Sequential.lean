import Xupeng.Models.Log.Native.Concurrent

/-!
# One thread at a time

Run by a single thread, the statements of a member function do together what the function does in
one step: the loggers, appenders and formatters are changed as in the model without threads.
-/

namespace Xupeng.Log.Concurrent

open Code Objects

variable {s : Shared} {l a : Nat}

/-- The shared data with other objects. -/
def Shared.withState (s : Shared) (t : State) : Shared := { s with toState := t }

/-- Both models change a logger alike. -/
theorem onLogger_eq {f : Objects.Logger → Objects.Logger} {t : State}
    (h : s.toState.onLogger l f = some t) : s.onLogger l f = s.withState t := by
  obtain ⟨logger, hl, rfl⟩ := Option.map_eq_some_iff.mp h
  have hmodify : s.loggers.modify l f = s.loggers.set l (f logger) := by
    refine List.ext_getElem? fun m => ?_
    rw [List.getElem?_modify, List.getElem?_set]
    obtain ⟨hlt, rfl⟩ := List.getElem?_eq_some_iff.mp hl
    by_cases hm : l = m
    · subst hm
      simp [hlt]
    · simp [hm]
  rw [Shared.onLogger, hmodify]
  rfl

/-- The loop over the appenders, if its passes leave the list alone. -/
theorem alone_forAppenders {body : Nat → Proc Unit} {f : Nat → Shared → Shared}
    (hbody : ∀ a s, (body a).alone s = some ((), f a s))
    (hlist : ∀ a s, (f a s).appendersOf l = s.appendersOf l) (s : Shared) :
    (Logger.forAppenders l body).alone s =
      some (List.replicate (s.appendersOf l).length (),
        (s.appendersOf l).foldl (fun s a => f a s) s) := by
  have hunchanged {t : Shared} (ht : t.appendersOf l = s.appendersOf l) :
      (attempt (fun t => if t.appendersOf l = s.appendersOf l then some t else none) :
        Proc Unit).alone t = some ((), t) := by
    rw [alone_attempt, if_pos ht]
    rfl
  have hloop (as : List Nat) {t : Shared} (ht : t.appendersOf l = s.appendersOf l) :
      (mapEach (fun a => do
        attempt fun t => if t.appendersOf l = s.appendersOf l then some t else none
        body a) as).alone t =
      some (List.replicate as.length (), as.foldl (fun s a => f a s) t) ∧
        (as.foldl (fun s a => f a s) t).appendersOf l = s.appendersOf l := by
    induction as generalizing t with
    | nil => exact ⟨rfl, ht⟩
    | cons a as ih =>
      obtain ⟨hrun, hend⟩ := ih ((hlist a t).trans ht)
      refine ⟨?_, hend⟩
      rw [mapEach, alone_bind, alone_bind, hunchanged ht]
      simp only [Option.bind_some]
      rw [hbody, Option.bind_some, alone_bind, hrun]
      rfl
  obtain ⟨hrun, hend⟩ := hloop (s.appendersOf l) rfl
  rw [Logger.forAppenders, alone_bind, alone_get]
  simp only [Option.bind_some]
  rw [alone_bind, hrun]
  simp only [Option.bind_some]
  rw [alone_bind, hunchanged hend]
  rfl

/-- The statements of a call. -/
def Objects.Call.statements : Objects.Call → Proc Unit
  | .newFormatter pattern => do let _ ← modifyGet (Shared.newFormatter pattern)
  | .newLogger root => do
    let l ← modifyGet (Shared.newLogger "")
    modify (.onLogger l fun logger => { logger with root })
  | .setLevel l val => Logger.setLevel l val
  | .addAppender l a => Logger.addAppender l a
  | .delAppender l a => Logger.delAppender l a
  | .clearAppender l => Logger.clearAppender l
  | .setFormatter l val => Logger.setFormatter l val
  | .setPattern l val => Logger.setPattern l val
  | .setAppenderLevel a val => LogAppender.setLevel a val
  | .setAppenderFormatter a val => LogAppender.setFormatter a val

/-- Alone, `addAppender` does what it does to the objects. -/
theorem addAppender_alone {t : State} (h : s.toState.addAppender l a = some t) :
    (Logger.addAppender l a).alone s = some ((), s.withState t) := by
  rw [State.addAppender] at h
  split at h
  · cases h
  · obtain ⟨logger, hl, h⟩ := Option.bind_eq_some_iff.mp h
    have hpush := onLogger_eq (s := s.onAppender a (.join logger.formatter)) h
    have hformatter : s.formatterOf l = logger.formatter := by
      rw [Shared.formatterOf, hl]
      rfl
    simp only [Logger.addAppender, LogAppender.getFormatter, alone_locked, alone_bind, alone_get,
      alone_pure, Option.bind_some]
    split
    · next hnone =>
      have hjoin : s.onAppender a (.join logger.formatter) =
          s.onAppender a fun ap => { ap with formatter := s.formatterOf l } := by
        rw [Shared.onAppender, Shared.onAppender, Appender.join, if_pos hnone, hformatter]
      rw [hjoin] at hpush
      simp only [alone_bind, alone_locked, alone_modify, Option.bind_some, hpush]
      rfl
    · next hsome =>
      have hjoin : s.onAppender a (.join logger.formatter) = s := by
        rw [Shared.onAppender, Appender.join, if_neg hsome, Function.update_eq_self]
      rw [hjoin] at hpush
      rw [alone_modify, hpush]

/-- Both models pass a formatter on alike. -/
theorem foldl_onAppender (f : Appender → Appender) (as : List Nat) (s : Shared) :
    as.foldl (fun s a => s.onAppender a f) s =
      s.withState (as.foldl (fun s a => s.onAppender a f) s.toState) := by
  induction as generalizing s with
  | nil => rfl
  | cons a as ih => exact ih (s.onAppender a f)

/-- What is done to a logger and what is done to appenders can be exchanged. -/
theorem onLogger_foldl (f : Appender → Appender) (g : Objects.Logger → Objects.Logger)
    (as : List Nat) (s : State) :
    (as.foldl (fun s a => s.onAppender a f) s).onLogger l g =
      (s.onLogger l g).map fun t => as.foldl (fun s a => s.onAppender a f) t := by
  induction as generalizing s with
  | nil => simp
  | cons a as ih =>
    rw [List.foldl_cons, ih]
    simp only [State.onLogger, State.onAppender, Option.map_map]
    rfl

/-- Alone, `setFormatter` does what it does to the objects. -/
theorem setFormatter_alone {t : State} {val : Option Nat}
    (h : s.toState.setFormatter l val = some t) :
    (Logger.setFormatter l val).alone s = some ((), s.withState t) := by
  obtain ⟨logger, hl, h⟩ := Option.bind_eq_some_iff.mp h
  rw [onLogger_foldl] at h
  obtain ⟨t, ht, rfl⟩ := Option.map_eq_some_iff.mp h
  have hset := onLogger_eq ht
  have happenders : (s.withState t).appendersOf l = logger.appenders := by
    obtain ⟨logger', hl', rfl⟩ := Option.map_eq_some_iff.mp ht
    obtain rfl : logger = logger' := Option.some.inj (hl.symm.trans hl')
    obtain ⟨hlt, -⟩ := List.getElem?_eq_some_iff.mp hl
    simp [Shared.appendersOf, Shared.withState, hlt]
  simp only [Logger.setFormatter, alone_locked, alone_bind, alone_modify, Option.bind_some, hset]
  rw [alone_forAppenders (f := fun a s => s.onAppender a (.follow val)) (fun a s => rfl)
    (fun a s => rfl), happenders, foldl_onAppender]
  rfl

/-- A single thread takes the steps of the model without threads. -/
theorem statements_alone {t : State} {c : Objects.Call} (h : s.toState.step c = some t) :
    ∃ u, (Objects.Call.statements c).alone s = some ((), u) ∧ u.toState = t := by
  have hlogger {l : Nat} {f : Objects.Logger → Objects.Logger}
      (h : s.toState.onLogger l f = some t) :
      (modify (Shared.onLogger l f) : Proc Unit).alone s = some ((), s.withState t) := by
    rw [alone_modify, onLogger_eq h]
  cases c with
  | newFormatter pattern =>
    cases h
    exact ⟨_, rfl, rfl⟩
  | newLogger root =>
    rw [State.step] at h
    split at h
    · cases h
      refine ⟨_, rfl, ?_⟩
      rw [onLogger_eq (t := ⟨s.formatters ++ [.init defaultPattern], s.appenders,
        s.loggers ++ [{ formatter := some s.formatters.length, root }]⟩)]
      · rfl
      · simp [State.onLogger, Shared.newLogger]
    · cases h
  | setLevel l val => exact ⟨s.withState t, hlogger h, rfl⟩
  | addAppender l a => exact ⟨s.withState t, addAppender_alone h, rfl⟩
  | delAppender l a =>
    refine ⟨s.withState t, ?_, rfl⟩
    exact (alone_locked _ _ s).trans (hlogger h)
  | clearAppender l =>
    refine ⟨s.withState t, ?_, rfl⟩
    exact (alone_locked _ _ s).trans (hlogger h)
  | setFormatter l val =>
    rw [State.step] at h
    split at h
    · exact ⟨s.withState t, setFormatter_alone h, rfl⟩
    · cases h
  | setPattern l val =>
    rw [State.step, State.setPattern] at h
    simp only [Objects.Call.statements, Logger.setPattern]
    split at h
    · next herror =>
      obtain ⟨_, -, rfl⟩ := Option.map_eq_some_iff.mp h
      exact ⟨s, by rw [if_pos herror]; rfl, rfl⟩
    · next hvalid =>
      rw [if_neg hvalid]
      exact ⟨_, setFormatter_alone (s := (s.newFormatter val).2) h, rfl⟩
  | setAppenderLevel a val =>
    cases h
    exact ⟨_, rfl, rfl⟩
  | setAppenderFormatter a val =>
    rw [State.step] at h
    split at h
    · cases h
      exact ⟨_, rfl, rfl⟩
    · cases h

end Xupeng.Log.Concurrent
