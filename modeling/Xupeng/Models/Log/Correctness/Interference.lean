import Xupeng.Models.Log.Correctness.Deadlock
import Xupeng.Models.Log.Interpretation.Protection

/-!
# Threads that share loggers

If no thread takes the formatter of an appender or of a logger away, then no interleaving of the
threads' calls crashes, what a lock protects changes only in the hands of the thread that has it,
and all threads get the same logger for a name. A file that was lost to an error stays lost.
-/

namespace Xupeng.Log.Concurrent

open Code Objects

variable {Text : Type}

/-- The call does not take the formatter of an appender or of a logger away. -/
def Call.KeepsFormatter : Call → Prop
  | setFormatter _ val => val.isSome
  | setAppenderFormatter _ val => val.isSome
  | _ => True

instance (c : Call) : Decidable c.KeepsFormatter :=
  match c with
  | .setFormatter _ val | .setAppenderFormatter _ val =>
    inferInstanceAs (Decidable (val.isSome = true))
  | .getLogger _ | .newLogger _ | .newFormatter _ | .log _ _ _ | .addAppender _ _
  | .delAppender _ _ | .clearAppender _ | .setPattern _ _ | .setLevel _ _
  | .getFormatter _ | .toYamlString _ | .setAppenderLevel _ _ | .getAppenderFormatter _
  | .appenderToYamlString _ | .reopen _ | .managerToYamlString => isTrue trivial

/-- A member function of a logger is called for one that was made. -/
theorem withLogger_does {l : Nat} {p : Proc (Answer Text)}
    (h : Does agreement [] (Stands l) p fun _ => Shared.Sound) :
    Does agreement [] Shared.Sound (withLogger l p) fun _ => Shared.Sound := by
  refine Does.bind (R := fun s t => s.Sound ∧ s.Keeps t)
    (does_get sound_stable fun s t hs hst => ⟨hs, hst.1⟩) fun s => ?_
  refine does_ite (fun hl => ?_) fun _ => ?_
  · exact h.imp fun t ht => ⟨ht.2.sound ht.1, hl.trans_le ht.2.loggers⟩
  · exact does_pure sound_stable fun t ht => ht.2.sound ht.1

/-- A call of a member function that returns nothing. -/
theorem withLogger_nothing {l : Nat} {p : Proc Unit}
    (h : Does agreement [] Shared.Sound p fun _ => Shared.Sound) :
    Does agreement [] Shared.Sound (withLogger l do p; return (.nothing : Answer Text))
      fun _ => Shared.Sound :=
  withLogger_does (Does.imp (h.bind fun _ => does_pure sound_stable fun _ hs => hs)
    fun _ hs => hs.1)

/-- Every call keeps the agreement. -/
theorem Call.code_does (L : Yaml.Library Text) {c : Call} (hc : c.KeepsFormatter) :
    Does agreement [] Shared.Sound (c.code L) fun _ => Shared.Sound := by
  have hI {held : List Lock} : Indifferent held Shared.Sound := sound_indifferent
  have hreturn {α : Type} {p : Proc α} {f : α → Answer Text}
      (h : Does agreement [] Shared.Sound p fun _ => Shared.Sound) :
      Does agreement [] Shared.Sound (do return f (← p)) fun _ => Shared.Sound :=
    h.bind fun _ => hI.does_pure _
  have hlevel (a : Nat) (val : Level) :
      Does agreement [] Shared.Sound (LogAppender.setLevel a val) fun _ => Shared.Sound :=
    does_modify_of_allowed sound_stable fun s _ =>
      allowed_onAppender (Or.inr fun ap => ⟨rfl, rfl⟩) fun h => h
  cases c with
  | getLogger name =>
    refine (LoggerManager.getLogger_does name).bind fun l => Does.bind ?_ fun _ => hI.does_pure _
    refine Does.weaken (does_modify_of_allowed (LoggerManager.value_stable l) fun s hs => ?_)
      fun _ s hs => hs.1
    exact allowed_given hs.2
  | newLogger name =>
    refine hreturn (does_modifyGet hI.stable (fun _ => hI.stable) fun s hs => ?_)
    have hallowed : agreement.Allowed [] s (s.newLogger name).2 := allowed_newLogger name
    exact ⟨hallowed, hallowed.1.sound hs⟩
  | newFormatter pattern => exact hreturn (Logger.newFormatter_does pattern)
  | log l level now => exact withLogger_nothing (Logger.logAbove_does level now _ l [])
  | addAppender l a =>
    refine withLogger_does ((Logger.addAppender_does l a).bind fun _ => ?_)
    exact does_pure sound_stable fun s hs => hs.1
  | delAppender l a =>
    exact withLogger_nothing (hI.does_locked
      (Logger.onLogger_does (fun x => List.erase_subset) fun _ => id))
  | clearAppender l =>
    exact withLogger_nothing (hI.does_locked
      (Logger.onLogger_does (fun x => List.nil_subset _) fun _ => id))
  | setFormatter l val => exact withLogger_nothing (Logger.setFormatter_does l hc)
  | setPattern l val => exact withLogger_nothing (Logger.setPattern_does l val)
  | setLevel l val =>
    refine withLogger_nothing (does_modify_of_allowed sound_stable fun s hs => ?_)
    refine allowed_onLogger (Or.inr fun x => ⟨rfl, rfl⟩) fun hsound x hx => ?_
    exact ⟨hsound.formatter_of (x := x) hx, fun _ => hsound.formats_of hx⟩
  | getFormatter l =>
    refine withLogger_does (Does.imp (hreturn ?_) fun s hs => hs.1)
    exact hI.does_locked (hI.does_get.bind fun _ => hI.does_pure _)
  | toYamlString l =>
    refine withLogger_does (Does.imp (hreturn ?_) fun s hs => hs.1)
    exact Logger.toYamlString_does L l hI
  | setAppenderLevel a val => exact (hlevel a val).bind fun _ => hI.does_pure _
  | setAppenderFormatter a val =>
    refine Does.bind (hI.does_locked (does_modify_of_allowed sound_stable fun s _ => ?_)) fun _ =>
      hI.does_pure _
    exact allowed_onAppender (Or.inl List.mem_cons_self) fun _ => hc
  | getAppenderFormatter a =>
    exact hreturn (hI.does_locked (hI.does_get.bind fun _ => hI.does_pure _))
  | appenderToYamlString a => exact hreturn (LogAppender.toYamlString_does L hI)
  | reopen a => exact (LogAppender.reopen_does hI).bind fun _ => hI.does_pure _
  | managerToYamlString => exact hreturn (LoggerManager.toYamlString_does L)

/-- What holds of a thread at its end. -/
def Ends (_ : List (Call × Answer Text)) (held : List Lock) (s : Shared) : Prop :=
  held = [] ∧ s.Sound

/-- A thread keeps to the agreement in all of its calls. -/
theorem program_safe (L : Yaml.Library Text) {calls : List Call}
    (hcalls : ∀ c ∈ calls, c.KeepsFormatter) {s : Shared} (hs : s.Sound) :
    (program L calls).Safe agreement Ends [] s := by
  have hloop : Does agreement [] Shared.Sound (program L calls) fun _ => Shared.Sound := by
    refine does_mapEach_of_invariant calls sound_stable fun c hc => ?_
    exact (Call.code_does L (hcalls c hc)).bind fun _ => does_pure sound_stable fun _ ht => ht
  exact hloop s hs

/-- The loggers as the program has made them are sound. -/
theorem init_sound (kinds : Nat → AppenderKind) (opened disk : Nat → Bool) :
    (Shared.init kinds opened disk).Sound where
  formats := by
    intro l a ha
    cases l with
    | zero =>
      obtain rfl := List.mem_singleton.mp ha
      rfl
    | succ l => cases ha
  formatters := by
    intro l hl
    cases l with
    | zero => rfl
    | succ l => exact absurd hl (by simp [Shared.init])
  given := by
    intro e he
    cases he
  made := by
    intro name l h
    change (Dictionary.empty.assign "root" 0).value name = some l at h
    rw [Dictionary.value_assign] at h
    split at h
    · cases h
      exact Nat.zero_lt_one
    · cases h

/-- One of the appenders writes to a file. -/
def oneFile (a : Nat) : AppenderKind := if a = 1 then .file "log.txt" else .stdout

/-- Two threads that use the root logger and one of their own. -/
def twoThreads : List (List Call) :=
  [[.getLogger "system", .addAppender 0 1, .log 0 .info 5],
    [.getLogger "system", .setPattern 0 "%m%n", .log 1 .warn 5]]

section

variable (L : Yaml.Library Text) (kinds : Nat → AppenderKind) (opened disk : Nat → Bool)
  (threads : List (List Call))

theorem start_keeping (h : ∀ calls ∈ threads, ∀ c ∈ calls, c.KeepsFormatter) :
    (start L (.init kinds opened disk) threads).Keeping agreement Ends
      (.init kinds opened disk) := by
  refine Lockers.start_keeping fun code hcode => ?_
  obtain ⟨calls, hcalls, rfl⟩ := List.mem_map.mp hcode
  exact program_safe L (h calls hcalls) (init_sound kinds opened disk)

/-- A thread that takes the formatter of the root's appender away crashes at its next line. -/
theorem crash_setFormatterNull :
    ((run Lockers.step (start Yaml.Library.tree (.init oneFile (fun _ => true) fun _ => true)
      [[.setAppenderFormatter 0 none, .log 0 .info 5]]) (List.replicate 12 0)).map
        (·.shared.isSome)) = some false := by
  decide

/-- So does one that gives the root a null formatter, which the appender takes over. -/
theorem crash_setLoggerFormatterNull :
    ((run Lockers.step (start Yaml.Library.tree (.init oneFile (fun _ => true) fun _ => true)
      [[.setFormatter 0 none, .log 0 .info 5]]) (List.replicate 19 0)).map
        (·.shared.isSome)) = some false := by
  decide

/-- While a thread has a lock, no other thread changes what it protects. -/
theorem locks_protect (h : ∀ calls ∈ threads, ∀ c ∈ calls, c.KeepsFormatter) (is : List Nat) :
    Guarded Lockers.step (fun t i => ∀ u, t.step i = some u → ∀ x ∈ t.shared, ∀ y ∈ u.shared,
      ∀ th ∈ t.threads.eraseIdx i, ∀ lock ∈ th.held, Shared.Same lock x y)
      (start L (.init kinds opened disk) threads) is := by
  have hstart := start_keeping L kinds opened disk threads h
  have hany : Guarded Lockers.step (fun _ _ => True)
      (start L (.init kinds opened disk) threads) is := .of_forall (fun _ _ => trivial) _ is
  refine Guarded.imp (I := fun t => ∃ x, t.Keeping agreement Ends x) ?_ ?_ ⟨_, hstart⟩ hany
  · rintro t i u ⟨x, hx⟩ - hu
    obtain ⟨y, hy, -⟩ := Lockers.step_keeping hx hu
    exact ⟨y, hy⟩
  · rintro t i ⟨x, hx⟩ - u hu x' hx' y' hy' th hth lock hlock
    obtain ⟨y, hy, -, hseen⟩ := Lockers.step_keeping hx hu
    obtain rfl : x = x' := Option.some.inj (hx.shared.symm.trans hx')
    obtain rfl : y = y' := Option.some.inj (hy.shared.symm.trans hy')
    exact (hseen th hth).2 lock hlock

/-- What the threads' locks protect in the same run. -/
theorem locks_protect_twoThreads :
    Guarded Lockers.step (fun t i => ∀ u, t.step i = some u → ∀ x ∈ t.shared, ∀ y ∈ u.shared,
      ∀ th ∈ t.threads.eraseIdx i, ∀ lock ∈ th.held, Shared.Same lock x y)
      (start Yaml.Library.tree (.init oneFile (fun _ => true) fun _ => true) twoThreads)
      [0, 1, 0, 0, 1] :=
  locks_protect _ _ _ _ twoThreads (by decide) _

/-- The two blocks of `addAppender` are not one: between them another thread gives the appender a
formatter of its own, and it is overwritten. Either call before the other would keep it. -/
theorem formatter_overwritten_addAppender :
    ((run Lockers.step (start Yaml.Library.tree (.init oneFile (fun _ => true) fun _ => true)
      [[.addAppender 0 1], [.setAppenderFormatter 1 (some 7)]])
      [0, 0, 0, 0, 0, 1, 1, 1, 0, 0, 0, 0, 0]).bind (·.shared)).map
        (fun x => ((x.appenders 1).formatter, (x.appenders 1).hasFormatter)) =
      some (some 0, true) := by
  decide

/-- What follows from the agreement holds in every state. -/
theorem along_of_keeping (h : ∀ calls ∈ threads, ∀ c ∈ calls, c.KeepsFormatter) (is : List Nat)
    {P : Lockers Shared Lock (List (Call × Answer Text)) → Prop}
    (hP : ∀ t x, t.Keeping agreement Ends x → x.Sound → P t) :
    Along Lockers.step P (start L (.init kinds opened disk) threads) is := by
  have hstart := start_keeping L kinds opened disk threads h
  refine along_of_invariant (I := fun t => ∃ x, t.Keeping agreement Ends x ∧ x.Sound) ?_ ?_
    ⟨_, hstart, init_sound kinds opened disk⟩ is
  · rintro t i u ⟨x, hx, hsound⟩ hu
    obtain ⟨y, hy, hxy, -⟩ := Lockers.step_keeping hx hu
    exact ⟨y, hy, hxy.sound hsound⟩
  · rintro t ⟨x, hx, hsound⟩
    exact hP t x hx hsound

/-- All that ask for a name get the same logger. -/
theorem getLogger_unique (h : ∀ calls ∈ threads, ∀ c ∈ calls, c.KeepsFormatter) (is : List Nat) :
    Along Lockers.step (fun t => ∀ x ∈ t.shared, ∀ e ∈ x.given, ∀ e' ∈ x.given,
      e.1 = e'.1 → e.2 = e'.2)
      (start L (.init kinds opened disk) threads) is := by
  refine along_of_keeping L kinds opened disk threads h is ?_
  intro t x hx hsound x' hx' e he e' he' hname
  obtain rfl : x = x' := Option.some.inj (hx.shared.symm.trans hx')
  have hfound := hsound.given e he
  have hfound' := hsound.given e' he'
  rw [hname] at hfound
  exact Option.some.inj (hfound.symm.trans hfound')

/-- Two threads ask for the same new logger, and both have got it before either comes to its
end. -/
theorem getLogger_unique_twoThreads :
    let t₀ := start Yaml.Library.tree (.init oneFile (fun _ => true) fun _ => true)
      [[.getLogger "system", .log 0 .info 5], [.getLogger "system", .log 1 .info 5]]
    let is := List.replicate 8 1 ++ List.replicate 5 0
    Along Lockers.step (fun t => ∀ x ∈ t.shared, ∀ e ∈ x.given, ∀ e' ∈ x.given,
        e.1 = e'.1 → e.2 = e'.2) t₀ is ∧
      ((run Lockers.step t₀ is).bind (·.shared)).map (·.given) =
        some [("system", 1), ("system", 1)] :=
  ⟨getLogger_unique _ _ _ _ _ (by decide) _, by decide⟩

/-- A file whose stream is in error while it is open is lost: whatever the threads do from then
on, and whatever the disk does, no line is written to it any more. -/
theorem file_lost (h : ∀ calls ∈ threads, ∀ c ∈ calls, c.KeepsFormatter) (is js : List Nat)
    (a : Nat) :
    Along Lockers.step (fun t => ∀ x ∈ t.shared, x.Lost a →
      Along Lockers.step (fun u => ∃ y ∈ u.shared, y.Lost a ∧ y.linesOf a = x.linesOf a) t js)
      (start L (.init kinds opened disk) threads) is := by
  refine along_of_keeping L kinds opened disk threads h is ?_
  rintro t x hx - x' hx' hlost
  obtain rfl : x = x' := Option.some.inj (hx.shared.symm.trans hx')
  refine along_of_invariant (I := fun u => ∃ y, u.Keeping agreement Ends y ∧ x.Keeps y) ?_ ?_
    ⟨x, hx, agreement.always_refl x⟩ js
  · rintro u i v ⟨y, hy, hxy⟩ hv
    obtain ⟨z, hz, hyz, -⟩ := Lockers.step_keeping hy hv
    exact ⟨z, hz, agreement.always_trans hxy hyz⟩
  · rintro u ⟨y, hy, hxy⟩
    exact ⟨y, hy.shared, hxy.lost a hlost⟩

end

/-- The disk is full at the first line only. The file is lost with it, and the second line is not
written although there is space again. -/
theorem file_lost_diskFull :
    ∃ t x, run Lockers.step (start Yaml.Library.tree (.init oneFile (fun _ => true) (· ≠ 2))
        [[.addAppender 0 1, .log 0 .info 5, .log 0 .info 9]]) (List.replicate 29 0) = some t ∧
      t.shared = some x ∧ x.Lost 1 ∧
      Along Lockers.step (fun u => ∃ y ∈ u.shared, y.Lost 1 ∧ y.linesOf 1 = x.linesOf 1) t
        (List.replicate 20 0) := by
  have hlost : ((run Lockers.step (start Yaml.Library.tree
      (.init oneFile (fun _ => true) (· ≠ 2))
      [[.addAppender 0 1, .log 0 .info 5, .log 0 .info 9]]) (List.replicate 29 0)).bind
        (·.shared)).map (fun x => (x.kinds 1, x.streams 1)) =
      some (.file "log.txt", ⟨true, false⟩) := by
    decide
  obtain ⟨x, hx, hfile⟩ := Option.map_eq_some_iff.mp hlost
  obtain ⟨t, ht, hshared⟩ := Option.bind_eq_some_iff.mp hx
  obtain ⟨hkind, hstream⟩ := Prod.mk.inj hfile
  have hx : x.Lost 1 := ⟨⟨_, hkind⟩, by rw [hstream], by rw [hstream]⟩
  refine ⟨t, x, ht, hshared, hx, ?_⟩
  exact (file_lost _ _ _ _ _ (by decide) _ _ 1).of_run ht x hshared hx

end Xupeng.Log.Concurrent
