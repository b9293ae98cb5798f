import Xupeng.Models.Config.Native.ConfigVar
import Xupeng.Models.Log.Native.Define
import Xupeng.Models.Log.Native.Formatter

/-!
# Loggers and their configuration

A logger has a level, a formatter and appenders; an appender without a formatter of its own
is given that of the logger when it is added. The manager creates a logger the first time
that its name is asked for.

The listener of `g_log_defines` compares the old definitions with the new ones. It configures
the loggers whose definition is new or changed, and takes level and appenders from those
whose definition is gone.
-/

namespace Xupeng.Log

/-- `FileLogAppender` with its file, or `StdoutLogAppender` -/
inductive AppenderKind
  | file (filename : String)
  | stdout
  deriving DecidableEq, Repr

/-- `LogAppender` -/
structure LogAppender where
  kind : AppenderKind
  level : Level := .debug
  hasFormatter : Bool := false
  formatter : Option LogFormatter := none
  deriving DecidableEq, Repr

/-- `LogAppender::setFormatter` -/
def LogAppender.setFormatter (val : Option LogFormatter) (ap : LogAppender) : LogAppender :=
  { ap with formatter := val, hasFormatter := val.isSome }

/-- The pattern that a logger starts with. -/
def defaultPattern : String := "%d{%Y-%m-%d %H:%M:%S}%T%t%T%N%T%F%T[%p]%T[%c]%T%f:%l%T%m%n"

/-- `Logger` -/
structure Logger where
  name : String
  level : Level := .debug
  appenders : List LogAppender := []
  formatter : LogFormatter := .init defaultPattern
  deriving DecidableEq, Repr

namespace Logger

/-- `Logger::setLevel` -/
def setLevel (val : Level) (logger : Logger) : Logger := { logger with level := val }

/-- `Logger::addAppender` -/
def addAppender (appender : LogAppender) (logger : Logger) : Logger :=
  let appender :=
    if appender.formatter.isNone then { appender with formatter := some logger.formatter }
    else appender
  { logger with appenders := logger.appenders ++ [appender] }

/-- `Logger::clearAppender` -/
def clearAppender (logger : Logger) : Logger := { logger with appenders := [] }

/-- `Logger::setFormatter` of a formatter -/
def setFormatter (val : LogFormatter) (logger : Logger) : Logger :=
  { logger with
    formatter := val
    appenders := logger.appenders.map fun i =>
      if i.hasFormatter then i else { i with formatter := some val } }

/-- `Logger::setFormatter` of a pattern, which ignores one that is in error. -/
def setPattern (val : String) (logger : Logger) : Logger :=
  let new_val := LogFormatter.init val
  if new_val.error then logger else logger.setFormatter new_val

end Logger

/-- `LoggerManager`. The root logger is the one of that name. -/
structure LoggerManager where
  loggers : String → Option Logger

namespace LoggerManager

/-- `LoggerManager::LoggerManager` -/
def fresh : LoggerManager where
  loggers name :=
    if name = "root" then
      let root : Logger := { name := "root" }
      some (root.addAppender { kind := .stdout })
    else none

/-- `LoggerManager::getLogger`: the logger that is found, or made. -/
def getLogger (m : LoggerManager) (name : String) : Logger :=
  (m.loggers name).getD { name }

/-- What is done to the logger that `getLogger` returns. -/
def modify (m : LoggerManager) (name : String) (f : Logger → Logger) : LoggerManager where
  loggers other := if other = name then some (f (m.getLogger name)) else m.loggers other

end LoggerManager

/-- `std::set<LogDefine>`, which is ordered by the names. -/
structure LogDefines where
  items : List LogDefine
  sorted : items.Pairwise (·.name < ·.name)
  deriving DecidableEq, Repr

/-- `find`, which compares names only. -/
def LogDefines.find (defines : LogDefines) (name : String) : Option LogDefine :=
  defines.items.find? (·.name = name)

/-- An appender for its definition, if its type is known. -/
def LogAppenderDefine.make (a : LogAppenderDefine) : Option LogAppender :=
  let made (kind : AppenderKind) : LogAppender :=
    let ap : LogAppender := { kind, level := a.level }
    let fmt := LogFormatter.init a.formatter
    if a.formatter ≠ "" ∧ fmt.error = false then ap.setFormatter (some fmt) else ap
  if a.type = 1 then some (made (.file a.file))
  else if a.type = 2 then some (made .stdout)
  else none

/-- What the listener does to a logger whose definition is new or changed. -/
def Logger.configure (i : LogDefine) (logger : Logger) : Logger :=
  let logger := logger.setLevel i.level
  let logger := if i.formatter ≠ "" then logger.setPattern i.formatter else logger
  let logger := logger.clearAppender
  (i.appenders.filterMap LogAppenderDefine.make).foldl (fun logger ap => logger.addAppender ap)
    logger

/-- What the listener does to a logger whose definition is gone. -/
def Logger.retire (logger : Logger) : Logger := (logger.setLevel .unknow).clearAppender

/-- The first loop of the listener. -/
def configureChanged (old_value : LogDefines) (m : LoggerManager) (i : LogDefine) :
    LoggerManager :=
  if old_value.find i.name = some i then m else m.modify i.name (Logger.configure i)

/-- The second loop of the listener. -/
def retireGone (new_value : LogDefines) (m : LoggerManager) (i : LogDefine) : LoggerManager :=
  if new_value.find i.name = none then m.modify i.name Logger.retire else m

/-- The listener that `LogIniter` adds to `g_log_defines`. -/
def onLoggerConfChanged (old_value new_value : LogDefines) (m : LoggerManager) : LoggerManager :=
  old_value.items.foldl (retireGone new_value)
    (new_value.items.foldl (configureChanged old_value) m)

/-- The listeners of `g_log_defines` act on the loggers. -/
abbrev Listener := LogDefines → LogDefines → LoggerManager → LoggerManager

/-- The variable with the loggers. -/
structure Configuration where
  g_log_defines : ConfigVar LogDefines Listener
  manager : LoggerManager

namespace Configuration

/-- After the static initialisation. -/
def init : Configuration where
  g_log_defines :=
    { val := ⟨[], List.Pairwise.nil⟩
      cbs := [(1, onLoggerConfChanged)]
      sorted := List.pairwise_singleton _ _ }
  manager := .fresh

/-- `g_log_defines->SetValue(v)`: both sections, one after the other. -/
def setValue (s : Configuration) (v : LogDefines) : Configuration :=
  match s.g_log_defines.compare v with
  | none => s
  | some notices =>
    { g_log_defines := s.g_log_defines.assign v
      manager := notices.foldl (fun m n => n.cb n.old_value n.new_value m) s.manager }

/-- The values that are assigned, one after the other. -/
def assigned (values : List LogDefines) : Configuration := values.foldl setValue init

end Configuration

end Xupeng.Log
