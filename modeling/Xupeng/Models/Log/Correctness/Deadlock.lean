import Mathlib.Data.Prod.Lex
import Xupeng.Models.Log.Native.Concurrent

/-!
# The loggers' locks are taken in one order

The manager's lock comes first, then the locks of loggers, a logger before its root, and the
lock of an appender last. A logger's root was made before it, so the order of loggers is that of
their ages. No member function takes a lock that it has, and all threads can come to their ends.
-/

namespace Xupeng.Log.Concurrent

open Code

/-- The order of the locks: the younger logger comes before the older one. -/
def Lock.rank : Lock → Nat ×ₗ Natᵒᵈ
  | manager => toLex (0, OrderDual.toDual 0)
  | logger l => toLex (1, OrderDual.toDual l)
  | appender _ => toLex (2, OrderDual.toDual 0)

/-- The manager is locked before its loggers. -/
theorem manager_lt_logger (l : Nat) : Lock.manager.rank < (Lock.logger l).rank :=
  Prod.Lex.toLex_lt_toLex.mpr (Or.inl Nat.zero_lt_one)

/-- A logger is locked before its appenders. -/
theorem logger_lt_appender (l a : Nat) : (Lock.logger l).rank < (Lock.appender a).rank :=
  Prod.Lex.toLex_lt_toLex.mpr (Or.inl (Nat.lt_succ_self 1))

/-- The root is locked after any other logger. -/
theorem logger_lt_root {l r : Nat} (h : r < l) : (Lock.logger l).rank < (Lock.logger r).rank :=
  Prod.Lex.toLex_lt_toLex.mpr (Or.inr ⟨rfl, OrderDual.toDual_lt_toDual.mpr h⟩)

/-- All locks that the thread has come before this one. -/
def Before (held : List Lock) (x : Lock) : Prop := ∀ m ∈ held, m.rank < x.rank

/-- A lock that is taken comes before the next one. -/
theorem Before.cons {held : List Lock} {x y : Lock} (h : Before held x) (hxy : x.rank < y.rank) :
    Before (x :: held) y := by
  intro m hm
  obtain rfl | hm := List.mem_cons.mp hm
  · exact hxy
  · exact (h m hm).trans hxy

variable {Text : Type} {held : List Lock} {a l : Nat}

/-- A block of one action. -/
theorem climbs_locked_modify {x : Lock} (h : Before held x) (f : Shared → Shared) :
    (locked x (modify f)).Climbs Lock.rank held held :=
  climbs_locked h (climbs_modify f)

theorem writtenLevel_climbs (level : Shared → Level) :
    (writtenLevel level).Climbs Lock.rank held held := by
  refine climbs_get.bind fun s => climbs_ite ?_ (climbs_pure _)
  exact climbs_get.bind fun _ => climbs_pure _

/-! ## Appenders -/

namespace LogAppender

theorem getFormatter_climbs (h : Before held (.appender a)) :
    (getFormatter a).Climbs Lock.rank held held :=
  climbs_locked h (climbs_get.bind fun _ => climbs_pure _)

theorem format_climbs (h : Before held (.appender a)) :
    (format a).Climbs Lock.rank held held :=
  climbs_locked h (climbs_attempt _)

theorem logFile_climbs (h : Before held (.appender a)) (now : UInt64) :
    (logFile a now).Climbs Lock.rank held held := by
  refine climbs_get.bind fun s => ?_
  have hformat := format_climbs h
  split
  · refine (climbs_locked_modify h _).bind fun _ => ?_
    exact (climbs_modify _).bind fun _ => hformat
  · exact hformat

theorem log_climbs (h : Before held (.appender a)) (level : Level) (now : UInt64) :
    (log a level now).Climbs Lock.rank held held := by
  refine climbs_get.bind fun s => climbs_ite ?_ (climbs_pure _)
  split
  · exact format_climbs h
  · exact logFile_climbs h now

theorem toYamlString_climbs (L : Yaml.Library Text) (h : Before held (.appender a)) :
    (toYamlString L a).Climbs Lock.rank held held := by
  refine climbs_locked h ((writtenLevel_climbs _).bind fun level => ?_)
  exact climbs_get.bind fun _ => climbs_pure _

end LogAppender

/-! ## Loggers -/

namespace Logger

theorem forAppenders_climbs {α : Type} {body : Nat → Proc α}
    (h : ∀ a, (body a).Climbs Lock.rank held held) :
    (forAppenders l body).Climbs Lock.rank held held := by
  refine climbs_get.bind fun s => ?_
  refine (climbs_mapEach fun a _ => ?_).bind fun values => ?_
  · exact (climbs_attempt _).bind fun _ => h a
  · exact (climbs_attempt _).bind fun _ => climbs_pure values

/-- A logger's lock is held while the root's is taken. -/
theorem logAbove_climbs (level : Level) (now : UInt64) {n : Nat} (h : Before held (.logger l)) :
    (logAbove level now n l).Climbs Lock.rank held held := by
  induction n generalizing l held with
  | zero => exact climbs_pure _
  | succ n ih =>
    refine climbs_get.bind fun s => climbs_ite (climbs_locked h ?_) (climbs_pure _)
    refine climbs_get.bind fun s => climbs_ite ?_ ?_
    · refine (forAppenders_climbs fun a => ?_).bind fun _ => climbs_pure _
      exact LogAppender.log_climbs (h.cons (logger_lt_appender l a)) level now
    · split
      · exact climbs_pure _
      · next r _ =>
        split
        · next hr => exact ih (h.cons (logger_lt_root hr))
        · exact climbs_pure _

theorem addAppender_climbs (h : Before held (.logger l)) :
    (addAppender l a).Climbs Lock.rank held held := by
  have ha := h.cons (logger_lt_appender l a)
  refine climbs_locked h ((LogAppender.getFormatter_climbs ha).bind fun fmt => ?_)
  have hpush : (modify (Shared.onLogger l fun logger =>
      { logger with appenders := logger.appenders ++ [a] }) : Proc Unit).Climbs Lock.rank
        (.logger l :: held) (.logger l :: held) := climbs_modify _
  split
  · exact (climbs_locked_modify ha _).bind fun _ => hpush
  · exact hpush

theorem setFormatter_climbs (h : Before held (.logger l)) (val : Option Nat) :
    (setFormatter l val).Climbs Lock.rank held held := by
  refine climbs_locked h ((climbs_modify _).bind fun _ => ?_)
  refine (forAppenders_climbs fun a => ?_).bind fun _ => climbs_pure _
  exact climbs_locked_modify (h.cons (logger_lt_appender l a)) _

theorem setPattern_climbs (h : Before held (.logger l)) (val : String) :
    (setPattern l val).Climbs Lock.rank held held :=
  climbs_ite (climbs_pure _) ((climbs_modifyGet _).bind fun _ => setFormatter_climbs h _)

theorem toYamlString_climbs (L : Yaml.Library Text) (h : Before held (.logger l)) :
    (toYamlString L l).Climbs Lock.rank held held := by
  refine climbs_locked h ((writtenLevel_climbs _).bind fun level => ?_)
  refine climbs_get.bind fun s => (forAppenders_climbs fun a => ?_).bind fun _ => climbs_pure _
  exact LogAppender.toYamlString_climbs L (h.cons (logger_lt_appender l a))

end Logger

/-! ## The manager -/

namespace LoggerManager

theorem getLogger_climbs (h : Before held .manager) (name : String) :
    (getLogger name).Climbs Lock.rank held held := by
  refine climbs_locked h (climbs_get.bind fun s => ?_)
  split
  · exact climbs_pure _
  · exact (climbs_modifyGet _).bind fun l => (climbs_modify _).bind fun _ =>
      (climbs_modify _).bind fun _ => climbs_pure _

/-- The manager's lock is held while those of loggers and appenders are taken. -/
theorem toYamlString_climbs (L : Yaml.Library Text) (h : Before held .manager) :
    (toYamlString L).Climbs Lock.rank held held := by
  refine climbs_locked h (climbs_get.bind fun s => ?_)
  refine (climbs_mapEach fun e _ => ?_).bind fun _ => ?_
  · refine (climbs_attempt _).bind fun _ => ?_
    exact Logger.toYamlString_climbs L (h.cons (manager_lt_logger e.2))
  · exact (climbs_attempt _).bind fun _ => climbs_pure _

end LoggerManager

/-! ## Calls -/

theorem withLogger_climbs {p : Proc (Answer Text)} (h : p.Climbs Lock.rank held held) :
    (withLogger l p).Climbs Lock.rank held held :=
  climbs_get.bind fun _ => climbs_ite h (climbs_pure _)

/-- Every call takes its locks in the order and gives them back. -/
theorem Call.code_climbs (L : Yaml.Library Text) (c : Call) :
    (c.code L).Climbs Lock.rank [] [] := by
  have hnone (x : Lock) : Before [] x := fun m hm => absurd hm List.not_mem_nil
  have hlogger (l : Nat) (f : Shared → Shared) :
      (withLogger l do locked (Lock.logger l) (modify f); return (.nothing : Answer Text)).Climbs
        Lock.rank [] [] :=
    withLogger_climbs ((climbs_locked_modify (hnone _) f).bind fun _ => climbs_pure _)
  cases c with
  | getLogger name =>
    exact (LoggerManager.getLogger_climbs (hnone _) name).bind fun _ =>
      (climbs_modify _).bind fun _ => climbs_pure _
  | newLogger name => exact (climbs_modifyGet _).bind fun _ => climbs_pure _
  | newFormatter pattern => exact (climbs_modifyGet _).bind fun _ => climbs_pure _
  | log l level now =>
    apply withLogger_climbs
    exact (Logger.logAbove_climbs level now (hnone _)).bind fun _ => climbs_pure _
  | addAppender l a =>
    exact withLogger_climbs ((Logger.addAppender_climbs (hnone _)).bind fun _ => climbs_pure _)
  | delAppender l a => exact hlogger l _
  | clearAppender l => exact hlogger l _
  | setFormatter l val =>
    exact withLogger_climbs ((Logger.setFormatter_climbs (hnone _) val).bind fun _ => climbs_pure _)
  | setPattern l val =>
    exact withLogger_climbs ((Logger.setPattern_climbs (hnone _) val).bind fun _ => climbs_pure _)
  | setLevel l val => exact withLogger_climbs ((climbs_modify _).bind fun _ => climbs_pure _)
  | getFormatter l =>
    refine withLogger_climbs (Climbs.bind ?_ fun _ => climbs_pure _)
    exact climbs_locked (hnone _) (climbs_get.bind fun _ => climbs_pure _)
  | toYamlString l =>
    exact withLogger_climbs ((Logger.toYamlString_climbs L (hnone _)).bind fun _ => climbs_pure _)
  | setAppenderLevel a val => exact (climbs_modify _).bind fun _ => climbs_pure _
  | setAppenderFormatter a val =>
    exact (climbs_locked_modify (hnone _) _).bind fun _ => climbs_pure _
  | getAppenderFormatter a =>
    exact (LogAppender.getFormatter_climbs (hnone _)).bind fun _ => climbs_pure _
  | appenderToYamlString a =>
    exact (LogAppender.toYamlString_climbs L (hnone _)).bind fun _ => climbs_pure _
  | reopen a => exact (climbs_locked_modify (hnone _) _).bind fun _ => climbs_pure _
  | managerToYamlString =>
    exact (LoggerManager.toYamlString_climbs L (hnone _)).bind fun _ => climbs_pure _

theorem start_climbing (L : Yaml.Library Text) (s : Shared) (threads : List (List Call)) :
    (start L s threads).Climbing Lock.rank := by
  refine Lockers.start_climbing fun code hcode => ?_
  obtain ⟨calls, -, rfl⟩ := List.mem_map.mp hcode
  exact climbs_mapEach fun c _ => (c.code_climbs L).bind fun _ => climbs_pure _

/-- The threads can go on so that all of their calls return, unless the process crashes. -/
def Completes (t : Lockers Shared Lock (List (Call × Answer Text))) : Prop :=
  ∃ is u, run Lockers.step t is = some u ∧ (u.shared = none ∨ u.Finished)

/-- Threads that log, change loggers and write their texts in any order are never deadlocked:
from every state that they reach, all of their calls can return. -/
theorem calls_complete (L : Yaml.Library Text) (s : Shared) (threads : List (List Call))
    (is : List Nat) : Along Lockers.step Completes (start L s threads) is := by
  refine along_of_invariant (I := Lockers.Climbing Lock.rank) ?_ ?_ (start_climbing L s threads) is
  · exact fun t i u ht hu => Lockers.step_climbing ht hu
  · exact fun t ht => Lockers.exists_finished ht

end Xupeng.Log.Concurrent
