import Xupeng.Models.Config.Native.LexicalCast

/-!
# Definitions of loggers

A logger is configured by a `LogDefine`. Its text is a YAML map that one converter writes and
the other one reads, field by field. A field that is missing is not an error, except for the
name; an appender without a type, or without its file, is skipped with a message.
-/

namespace Xupeng.Log

open Yaml

/-- `LogLevel::Level` -/
inductive Level
  | unknow
  | debug
  | info
  | warn
  | error
  | fatal
  deriving DecidableEq, Repr

namespace Level

/-- `LogLevel::ToString` -/
def toString : Level → String
  | debug => "DEBUG"
  | info => "INFO"
  | warn => "WARN"
  | error => "ERROR"
  | fatal => "FATAL"
  | unknow => "UNKNOW"

/-- `LogLevel::FromString` -/
def fromString (str : String) : Level :=
  if str = "debug" then debug
  else if str = "info" then info
  else if str = "warn" then warn
  else if str = "error" then error
  else if str = "fatal" then fatal
  else if str = "DEBUG" then debug
  else if str = "INFO" then info
  else if str = "WARN" then warn
  else if str = "ERROR" then error
  else if str = "FATAL" then fatal
  else unknow

theorem fromString_toString (level : Level) : fromString level.toString = level := by
  cases level <;> decide

end Level

/-- `LogAppenderDefine` -/
structure LogAppenderDefine where
  /-- 1 is a file, 2 is the standard output -/
  type : Int32 := 0
  level : Level := .unknow
  formatter : String := ""
  file : String := ""
  deriving DecidableEq, Repr

/-- `LogDefine` -/
structure LogDefine where
  name : String := ""
  level : Level := .unknow
  formatter : String := ""
  appenders : List LogAppenderDefine := []
  deriving DecidableEq, Repr

/-- `node[key] = value`, if the condition holds. -/
def setIf (cond : Bool) (key : String) (value : String) (node : Node) : Option Node :=
  if cond then node.set key (.scalar value) else some node

/-- `node[key].push_back(value)`: a node that is undefined or null becomes a sequence. -/
def pushBack (key : String) (value : Node) (node : Node) : Option Node := do
  match ← node.find key with
  | none | some .null => node.set key (.sequence [value])
  | some (.sequence items) => node.set key (.sequence (items ++ [value]))
  | some _ => none

/-- The type of an appender and what goes with it. -/
def LogAppenderDefine.buildType (a : LogAppenderDefine) : Option Node :=
  if a.type = 1 then do
    let na ← Node.null.set "type" (.scalar "FileLogAppender")
    na.set "file" (.scalar a.file)
  else if a.type = 2 then
    Node.null.set "type" (.scalar "StdoutLogAppender")
  else some .null

/-- The body of the loop over the appenders in `LexicalCast<LogDefine, std::string>`. -/
def LogAppenderDefine.build (a : LogAppenderDefine) : Option Node := do
  let na ← a.buildType
  let na ← setIf (a.level ≠ .unknow) "level" a.level.toString na
  setIf (a.formatter ≠ "") "formatter" a.formatter na

/-- `LexicalCast<LogDefine, std::string>`, up to the node that it emits. -/
def LogDefine.build (i : LogDefine) : Option Node := do
  let n ← Node.null.set "name" (.scalar i.name)
  let n ← setIf (i.level ≠ .unknow) "level" i.level.toString n
  let n ← setIf (i.formatter ≠ "") "formatter" i.formatter n
  i.appenders.foldlM (fun n a => do pushBack "appender" (← a.build) n) n

section

variable {Text : Type} (L : Library Text)

/-- The text of a field, which is empty if the field is not there. -/
def textOf (key : String) (node : Node) : Option String := do
  match ← node.find key with
  | none => some ""
  | some value => L.asString value

/-- The body of the loop over the appenders in `LexicalCast<std::string, LogDefine>`; an appender
that is skipped is none. An index of a map may be undefined, and so is its type. -/
def LogAppenderDefine.take : Option Node → Option (Option LogAppenderDefine)
  | none => some none
  | some a => do
    match ← a.find "type" with
    | none => some none
    | some node =>
      let type ← L.asString node
      if type = "FileLogAppender" then
        match ← a.find "file" with
        | none => some none
        | some file =>
          let file ← L.asString file
          let formatter ← textOf L "formatter" a
          some (some { type := 1, file, formatter })
      else if type = "StdoutLogAppender" then
        let formatter ← textOf L "formatter" a
        some (some { type := 2, formatter })
      else some none

/-- The loop over `n["appenders"]`. -/
def takeAppenders : Option Node → Option (List LogAppenderDefine)
  | none => some []
  | some node => do
    let appenders ← (List.range node.size).mapM fun x =>
      LogAppenderDefine.take L (node.item L.index x)
    some (appenders.filterMap id)

/-- `LexicalCast<std::string, LogDefine>` at the node that it has loaded. -/
def LogDefine.take (n : Node) : Option LogDefine := do
  match ← n.find "name" with
  | none => none
  | some node =>
    let name ← L.asString node
    let level := Level.fromString (← textOf L "level" n)
    let formatter ← textOf L "formatter" n
    let appenders ← takeAppenders L (← n.find "appenders")
    some { name, level, formatter, appenders }

/-- The two converters of `LogDefine`. -/
def LogDefine.cast : Config.LexicalCast Text LogDefine :=
  .ofNode L (fun _ i => i.build) (LogDefine.take L)

end

end Xupeng.Log
