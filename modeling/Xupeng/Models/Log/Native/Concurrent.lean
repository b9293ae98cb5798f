import Mathlib.Data.String.Basic
import Xupeng.Core.Dictionary
import Xupeng.Core.Lockers
import Xupeng.Models.Log.Native.Export
import Xupeng.Models.Log.Native.Objects

/-!
# Loggers that several threads use

Every logger, every appender and the manager have a spinlock of their own. The member functions
are given here by their statements, so that those of several threads can be taken in any order:
what is done under a lock is a block, and what is read or written without one can be seen
half-way by others. Levels are never protected, nor is the time of the last reopening.

A loop over a list is undefined if the list is changed before it ends.
-/

namespace Xupeng.Log.Concurrent

open Objects Yaml

/-- The mutexes of the manager, the loggers and the appenders -/
inductive Lock
  | manager
  | logger (l : Nat)
  | appender (a : Nat)
  deriving DecidableEq, Repr

/-- `std::ofstream`, by whether a file is open and whether no operation has failed since the
last successful `open`. -/
structure Stream where
  isOpen : Bool := false
  good : Bool := true
  deriving DecidableEq, Repr

namespace Stream

/-- `close()`, which fails if no file is open and where the last bytes cannot be written. -/
def close (ok : Bool) (st : Stream) : Stream := ⟨false, st.good && st.isOpen && ok⟩

/-- `open`, which fails if a file is open and clears the errors if it succeeds. -/
def openFile (ok : Bool) (st : Stream) : Stream :=
  if st.isOpen then { st with good := false } else ⟨ok, ok⟩

/-- `FileLogAppender::reopen` -/
def reopen (closed opened : Bool) (st : Stream) : Stream :=
  (if st.good then st.close closed else st).openFile opened

end Stream

/-- All that the threads share. -/
structure Shared extends State where
  /-- The kinds of the appenders, with the names of the files -/
  kinds : Nat → AppenderKind
  /-- `m_lastTime` of the appenders -/
  lastTime : Nat → UInt64 := fun _ => 0
  /-- `m_filestream` of the appenders -/
  streams : Nat → Stream
  /-- `m_name` of the loggers -/
  names : Nat → String
  /-- `m_loggers` of the manager -/
  m_loggers : Dictionary (id : String → String) Nat
  /-- The lines that were written, with their appenders and formatters -/
  lines : List (Nat × Nat) := []
  /-- Whether an operation on a file succeeds -/
  disk : Nat → Bool
  /-- The number of operations on files -/
  operations : Nat := 0
  /-- The loggers that `getLogger` has returned, with their names -/
  given : List (String × Nat) := []

/-- The code of a member function -/
abbrev Proc := Code Shared Lock

namespace Shared

/-- After the constructor of the manager, which makes the root logger. The constructors of the
appenders have opened their files, or have failed to. -/
def init (kinds : Nat → AppenderKind) (opened disk : Nat → Bool) : Shared where
  formatters := [.init defaultPattern]
  appenders := Function.update (fun _ => {}) 0 { formatter := some 0 }
  loggers := [{ formatter := some 0, appenders := [0] }]
  kinds
  streams a := ({} : Stream).reopen true (opened a)
  names _ := "root"
  m_loggers := Dictionary.empty.assign "root" 0
  disk

/-- What is done to a logger. -/
def onLogger (l : Nat) (f : Objects.Logger → Objects.Logger) (s : Shared) : Shared :=
  { s with loggers := s.loggers.modify l f }

/-- What is done to an appender. -/
def onAppender (a : Nat) (f : Appender → Appender) (s : Shared) : Shared :=
  { s with appenders := Function.update s.appenders a (f (s.appenders a)) }

/-- What is done to a file. -/
def onStream (a : Nat) (f : Stream → Stream) (s : Shared) : Shared :=
  { s with streams := Function.update s.streams a (f (s.streams a)) }

/-- `m_level` of a logger -/
def levelOf (s : Shared) (l : Nat) : Level := s.loggers[l]?.elim .debug Objects.Logger.level

/-- `m_appenders` of a logger -/
def appendersOf (s : Shared) (l : Nat) : List Nat :=
  s.loggers[l]?.elim [] Objects.Logger.appenders

/-- `m_formatter` of a logger -/
def formatterOf (s : Shared) (l : Nat) : Option Nat := s.loggers[l]?.bind Objects.Logger.formatter

/-- `new LogFormatter(pattern)` -/
def newFormatter (pattern : String) (s : Shared) : Nat × Shared :=
  (s.formatters.length, { s with formatters := s.formatters ++ [.init pattern] })

/-- `new Logger(name)` -/
def newLogger (name : String) (s : Shared) : Nat × Shared :=
  (s.loggers.length,
    { s with
      formatters := s.formatters ++ [.init defaultPattern]
      loggers := s.loggers ++ [{ formatter := some s.formatters.length }]
      names := Function.update s.names s.loggers.length name })

/-- What `reopen` does to the file, with two operations on it. -/
def reopen (a : Nat) (s : Shared) : Shared :=
  { s.onStream a (.reopen (s.disk s.operations) (s.disk (s.operations + 1))) with
    operations := s.operations + 2 }

/-- A line is formatted to the file of an appender. An error in the stream lasts. -/
def formatFile (a f : Nat) (s : Shared) : Shared :=
  if (s.streams a).good then
    if (s.streams a).isOpen ∧ s.disk s.operations then
      { s with lines := s.lines ++ [(a, f)], operations := s.operations + 1 }
    else
      { s.onStream a (fun st => { st with good := false }) with operations := s.operations + 1 }
  else s

/-- A line is formatted to where the appender writes. -/
def format (a f : Nat) (s : Shared) : Shared :=
  match s.kinds a with
  | .stdout => { s with lines := s.lines ++ [(a, f)] }
  | .file _ => s.formatFile a f

/-- The pattern of a formatter. -/
def patternOf (s : Shared) (f : Nat) : Option String := s.formatters[f]?.map LogFormatter.pattern

end Shared

/-- A level for its text is read once to be tested and once more to be written. -/
def writtenLevel (level : Shared → Level) : Proc (Option String) := do
  let s ← .get
  if level s ≠ .unknow then
    let s ← .get
    return some (level s).toString
  else return none

/-! ## Appenders -/

namespace LogAppender

/-- `LogAppender::setLevel` -/
def setLevel (a : Nat) (val : Level) : Proc Unit :=
  .modify (.onAppender a fun ap => { ap with level := val })

/-- `LogAppender::setFormatter` -/
def setFormatter (a : Nat) (val : Option Nat) : Proc Unit :=
  .locked (.appender a) (.modify (.onAppender a (.setFormatter val)))

/-- `LogAppender::getFormatter` -/
def getFormatter (a : Nat) : Proc (Option Nat) :=
  .locked (.appender a) do
    let s ← .get
    return (s.appenders a).formatter

/-- `FileLogAppender::reopen` -/
def reopen (a : Nat) : Proc Unit := .locked (.appender a) (.modify (.reopen a))

/-- The block of `log`. It is undefined for a null formatter. -/
def format (a : Nat) : Proc Unit :=
  .locked (.appender a) (.attempt fun s => (s.appenders a).formatter.map fun f => s.format a f)

/-- `FileLogAppender::log` from its test of the time on -/
def logFile (a : Nat) (now : UInt64) : Proc Unit := do
  let s ← .get
  if s.lastTime a + 3 ≤ now then
    reopen a
    .modify fun s => { s with lastTime := Function.update s.lastTime a now }
  format a

/-- `StdoutLogAppender::log` and `FileLogAppender::log` -/
def log (a : Nat) (level : Level) (now : UInt64) : Proc Unit := do
  let s ← .get
  if (s.appenders a).level.value ≤ level.value then
    match s.kinds a with
    | .stdout => format a
    | .file _ => logFile a now

/-- `toYamlString` of both kinds of appender -/
def toYamlString {Text : Type} (L : Library Text) (a : Nat) : Proc (Option Text) :=
  .locked (.appender a) do
    let level ← writtenLevel fun s => (s.appenders a).level
    let s ← .get
    let ap := s.appenders a
    let formatter := if ap.hasFormatter then ap.formatter.bind s.patternOf else none
    return ((s.kinds a).build level formatter).map L.emit

end LogAppender

/-! ## Loggers -/

namespace Logger

/-- `for (auto &i : m_appenders)` -/
def forAppenders {α : Type} (l : Nat) (body : Nat → Proc α) : Proc (List α) := do
  let s ← .get
  let unchanged : Proc Unit := .attempt fun t =>
    if t.appendersOf l = s.appendersOf l then some t else none
  let values ← Code.mapEach (fun a => do unchanged; body a) (s.appendersOf l)
  unchanged
  return values

/-- `Logger::setLevel` -/
def setLevel (l : Nat) (val : Level) : Proc Unit :=
  .modify (.onLogger l fun logger => { logger with level := val })

/-- `Logger::log` of a logger with at most so many roots above it. A logger without appenders
passes the event on to the root, with its lock held. -/
def logAbove (level : Level) (now : UInt64) : Nat → Nat → Proc Unit
  | 0, _ => return
  | n + 1, l => do
    let s ← .get
    if (s.levelOf l).value ≤ level.value then
      .locked (.logger l) do
        let s ← .get
        if s.appendersOf l ≠ [] then
          let _ ← forAppenders l fun a => LogAppender.log a level now
        else
          match s.loggers[l]?.bind Objects.Logger.root with
          | none => return
          | some r => if r < l then logAbove level now n r else return

/-- `Logger::log`. The root is older than the logger, so there are not more of them than it has
predecessors. -/
def log (l : Nat) (level : Level) (now : UInt64) : Proc Unit := logAbove level now (l + 1) l

/-- `Logger::addAppender`. The appender is asked for its formatter in one block and is given
that of the logger in another. -/
def addAppender (l a : Nat) : Proc Unit :=
  .locked (.logger l) do
    let fmt ← LogAppender.getFormatter a
    if fmt.isNone then
      .locked (.appender a)
        (.modify fun s => s.onAppender a fun ap => { ap with formatter := s.formatterOf l })
    .modify (.onLogger l fun logger => { logger with appenders := logger.appenders ++ [a] })

/-- `Logger::delAppender` -/
def delAppender (l a : Nat) : Proc Unit :=
  .locked (.logger l) (.modify (.onLogger l fun logger =>
    { logger with appenders := logger.appenders.erase a }))

/-- `Logger::clearAppender` -/
def clearAppender (l : Nat) : Proc Unit :=
  .locked (.logger l) (.modify (.onLogger l fun logger => { logger with appenders := [] }))

/-- `Logger::setFormatter` of a formatter, which can be null -/
def setFormatter (l : Nat) (val : Option Nat) : Proc Unit :=
  .locked (.logger l) do
    .modify (.onLogger l fun logger => { logger with formatter := val })
    let _ ← forAppenders l fun a =>
      .locked (.appender a) (.modify (.onAppender a (.follow val)))

/-- `Logger::setFormatter` of a pattern -/
def setPattern (l : Nat) (val : String) : Proc Unit := do
  if (LogFormatter.init val).error then return
  else
    let new_val ← .modifyGet (Shared.newFormatter val)
    setFormatter l (some new_val)

/-- `Logger::getFormatter` -/
def getFormatter (l : Nat) : Proc (Option Nat) :=
  .locked (.logger l) do
    let s ← .get
    return s.formatterOf l

/-- `Logger::toYamlString` -/
def toYamlString {Text : Type} (L : Library Text) (l : Nat) : Proc (Option Text) :=
  .locked (.logger l) do
    let level ← writtenLevel fun s => s.levelOf l
    let s ← .get
    let formatter := (s.formatterOf l).bind s.patternOf
    let appenders ← forAppenders l (LogAppender.toYamlString L)
    return do
      let nodes ← appenders.mapM fun text => text.bind L.load
      (buildLogger (s.names l) level formatter nodes).map L.emit

end Logger

/-! ## The manager -/

namespace LoggerManager

/-- What `getLogger` does for a name that is not found: the new logger is complete before it can
be found. -/
def newLogger (name : String) : Proc Nat := do
  let l ← .modifyGet (Shared.newLogger name)
  .modify (.onLogger l fun logger => { logger with root := some 0 })
  .modify fun s => { s with m_loggers := s.m_loggers.assign name l }
  return l

/-- `LoggerManager::getLogger` -/
def getLogger (name : String) : Proc Nat :=
  .locked .manager do
    let s ← .get
    match s.m_loggers.value name with
    | some l => return l
    | none => newLogger name

/-- `LoggerManager::toYamlString` -/
def toYamlString {Text : Type} (L : Library Text) : Proc (Option Text) :=
  .locked .manager do
    let s ← .get
    let unchanged : Proc Unit := .attempt fun t =>
      if t.m_loggers.entries = s.m_loggers.entries then some t else none
    let texts ← Code.mapEach (fun e => do unchanged; Logger.toYamlString L e.2) s.m_loggers.entries
    unchanged
    return do
      let nodes ← texts.mapM fun text => text.bind L.load
      return L.emit (buildManager nodes)

end LoggerManager

/-! ## Calls -/

/-- The calls of a thread. The loggers and appenders are those that it has pointers to. -/
inductive Call
  | getLogger (name : String)
  | newLogger (name : String)
  | newFormatter (pattern : String)
  | log (l : Nat) (level : Level) (now : UInt64)
  | addAppender (l a : Nat)
  | delAppender (l a : Nat)
  | clearAppender (l : Nat)
  | setFormatter (l : Nat) (val : Option Nat)
  | setPattern (l : Nat) (val : String)
  | setLevel (l : Nat) (val : Level)
  | getFormatter (l : Nat)
  | toYamlString (l : Nat)
  | setAppenderLevel (a : Nat) (val : Level)
  | setAppenderFormatter (a : Nat) (val : Option Nat)
  | getAppenderFormatter (a : Nat)
  | appenderToYamlString (a : Nat)
  | reopen (a : Nat)
  | managerToYamlString
  deriving DecidableEq, Repr

/-- What a call returns -/
inductive Answer (Text : Type)
  | nothing
  | logger (l : Nat)
  | formatter (f : Option Nat)
  | text (text : Option Text)
  deriving DecidableEq, Repr

variable {Text : Type}

/-- A call of a member function of a logger, which the thread has a pointer to only if it was
made. -/
def withLogger (l : Nat) (p : Proc (Answer Text)) : Proc (Answer Text) := do
  let s ← .get
  if l < s.loggers.length then p else return .nothing

/-- The code of a call. -/
def Call.code (L : Library Text) : Call → Proc (Answer Text)
  | getLogger name => do
    let l ← LoggerManager.getLogger name
    .modify fun s => { s with given := s.given ++ [(name, l)] }
    return .logger l
  | newLogger name => do return .logger (← .modifyGet (Shared.newLogger name))
  | newFormatter pattern => do
    return .formatter (some (← .modifyGet (Shared.newFormatter pattern)))
  | log l level now => withLogger l do Logger.log l level now; return .nothing
  | addAppender l a => withLogger l do Logger.addAppender l a; return .nothing
  | delAppender l a => withLogger l do Logger.delAppender l a; return .nothing
  | clearAppender l => withLogger l do Logger.clearAppender l; return .nothing
  | setFormatter l val => withLogger l do Logger.setFormatter l val; return .nothing
  | setPattern l val => withLogger l do Logger.setPattern l val; return .nothing
  | setLevel l val => withLogger l do Logger.setLevel l val; return .nothing
  | getFormatter l => withLogger l do return .formatter (← Logger.getFormatter l)
  | toYamlString l => withLogger l do return .text (← Logger.toYamlString L l)
  | setAppenderLevel a val => do LogAppender.setLevel a val; return .nothing
  | setAppenderFormatter a val => do LogAppender.setFormatter a val; return .nothing
  | getAppenderFormatter a => do return .formatter (← LogAppender.getFormatter a)
  | appenderToYamlString a => do return .text (← LogAppender.toYamlString L a)
  | reopen a => do LogAppender.reopen a; return .nothing
  | managerToYamlString => do return .text (← LoggerManager.toYamlString L)

/-- The code of a thread: its calls, one after the other, with what they return. -/
def program (L : Library Text) (calls : List Call) : Proc (List (Call × Answer Text)) :=
  Code.mapEach (fun c => do return (c, ← c.code L)) calls

/-- The threads with their calls, and the loggers as the program has made them. -/
def start (L : Library Text) (s : Shared) (threads : List (List Call)) :
    Lockers Shared Lock (List (Call × Answer Text)) :=
  .start s (threads.map (program L))

end Xupeng.Log.Concurrent
