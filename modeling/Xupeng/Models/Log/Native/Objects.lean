import Mathlib.Logic.Function.Basic
import Xupeng.Core.Run
import Xupeng.Models.Log.Native.Logger

/-!
# Loggers, appenders and formatters behind pointers

Here loggers, appenders and formatters are objects with an identity. An appender can be taken
from one logger and added to another, and several objects can hold the same formatter. A
formatter is given by its place among all that were made.

An appender without a formatter of its own holds a copy of the pointer of its logger, made
when it is added and when the logger changes its formatter.
-/

namespace Xupeng.Log

/-- The number of a level. -/
def Level.value : Level → Nat
  | unknow => 0
  | debug => 1
  | info => 2
  | warn => 3
  | error => 4
  | fatal => 5

namespace Objects

/-- `LogAppender` -/
structure Appender where
  level : Level := .debug
  hasFormatter : Bool := false
  formatter : Option Nat := none
  deriving DecidableEq, Repr

/-- `LogAppender::setFormatter` -/
def Appender.setFormatter (val : Option Nat) (ap : Appender) : Appender :=
  { ap with formatter := val, hasFormatter := val.isSome }

/-- What `Logger::addAppender` does to the appender. -/
def Appender.join (formatter : Option Nat) (ap : Appender) : Appender :=
  if ap.formatter.isNone then { ap with formatter } else ap

/-- What `Logger::setFormatter` does to an appender. -/
def Appender.follow (formatter : Option Nat) (ap : Appender) : Appender :=
  if ap.hasFormatter then ap else { ap with formatter }

/-- `Logger` -/
structure Logger where
  level : Level := .debug
  appenders : List Nat := []
  formatter : Option Nat
  root : Option Nat := none
  deriving DecidableEq, Repr

/-- All objects. An appender that was never used is as its constructor leaves it. -/
structure State where
  formatters : List LogFormatter := []
  appenders : Nat → Appender := fun _ => {}
  loggers : List Logger := []

/-- The calls. -/
inductive Call
  | newFormatter (pattern : String)
  | newLogger (root : Option Nat)
  | setLevel (logger : Nat) (val : Level)
  | addAppender (logger appender : Nat)
  | delAppender (logger appender : Nat)
  | clearAppender (logger : Nat)
  | setFormatter (logger : Nat) (val : Option Nat)
  | setPattern (logger : Nat) (val : String)
  | setAppenderLevel (appender : Nat) (val : Level)
  | setAppenderFormatter (appender : Nat) (val : Option Nat)
  deriving DecidableEq, Repr

namespace State

/-- What is done to one appender. -/
def onAppender (s : State) (a : Nat) (f : Appender → Appender) : State :=
  { s with appenders := Function.update s.appenders a (f (s.appenders a)) }

/-- What is done to one logger. -/
def onLogger (s : State) (l : Nat) (f : Logger → Logger) : Option State :=
  s.loggers[l]?.map fun logger => { s with loggers := s.loggers.set l (f logger) }

/-- Some logger other than this one has the appender. -/
def elsewhere (s : State) (l a : Nat) : Bool :=
  (s.loggers.eraseIdx l).any fun logger => a ∈ logger.appenders

/-- `Logger::addAppender`, of an appender that no other logger has. -/
def addAppender (s : State) (l a : Nat) : Option State :=
  if s.elsewhere l a then none
  else
    s.loggers[l]?.bind fun logger =>
      (s.onAppender a (.join logger.formatter)).onLogger l fun logger =>
        { logger with appenders := logger.appenders ++ [a] }

/-- `Logger::setFormatter` of a formatter, which can be null -/
def setFormatter (s : State) (l : Nat) (val : Option Nat) : Option State :=
  s.loggers[l]?.bind fun logger =>
    (logger.appenders.foldl (fun s a => s.onAppender a (.follow val)) s).onLogger l fun logger =>
      { logger with formatter := val }

/-- `Logger::setFormatter` of a pattern: one that is in error is dropped. -/
def setPattern (s : State) (l : Nat) (val : String) : Option State :=
  let new_val := LogFormatter.init val
  if new_val.error then s.loggers[l]?.map fun _ => s
  else { s with formatters := s.formatters ++ [new_val] }.setFormatter l (some s.formatters.length)

/-- One call. -/
def step (s : State) : Call → Option State
  | .newFormatter pattern => some { s with formatters := s.formatters ++ [.init pattern] }
  | .newLogger root =>
    if ∀ r ∈ root, r < s.loggers.length then
      some
        { s with
          formatters := s.formatters ++ [.init defaultPattern]
          loggers := s.loggers ++ [{ formatter := some s.formatters.length, root }] }
    else none
  | .setLevel l val => s.onLogger l fun logger => { logger with level := val }
  | .addAppender l a => s.addAppender l a
  | .delAppender l a =>
    s.onLogger l fun logger => { logger with appenders := logger.appenders.erase a }
  | .clearAppender l => s.onLogger l fun logger => { logger with appenders := [] }
  | .setFormatter l val =>
    if ∀ f ∈ val, f < s.formatters.length then s.setFormatter l val else none
  | .setPattern l val => s.setPattern l val
  | .setAppenderLevel a val => some (s.onAppender a fun ap => { ap with level := val })
  | .setAppenderFormatter a val =>
    if ∀ f ∈ val, f < s.formatters.length then some (s.onAppender a (.setFormatter val)) else none

end State

/-- `log` of an appender: the formatter that it uses, if the level is high enough. There is no
result where a null pointer is used. -/
def Appender.log (level : Level) (ap : Appender) : Option (List Nat) :=
  if ap.level.value ≤ level.value then ap.formatter.map ([·]) else some []

/-- `Logger::log`: the formatters that are used. A logger without appenders passes the event on
to the root, which is older than it. -/
def State.log (s : State) (level : Level) (l : Nat) : Option (List Nat) :=
  match s.loggers[l]? with
  | none => some []
  | some logger =>
    if logger.level.value ≤ level.value then
      if logger.appenders ≠ [] then
        (logger.appenders.mapM fun a => (s.appenders a).log level).map List.flatten
      else
        match logger.root with
        | none => some []
        | some r => if r < l then s.log level r else some []
    else some []
  termination_by l

end Objects

end Xupeng.Log
