import Xupeng.Models.Log.Native.Logger

/-!
# Texts of loggers and appenders

`toYamlString` of an appender, of a logger and of the manager. A logger loads the texts of its
appenders and puts the nodes under `appenders`; the manager does the same with its loggers. An
appender that has no formatter of its own does not write one.

The text of the manager is a value of the variable `logs`, so it can be loaded again.
-/

namespace Xupeng.Log

open Yaml

/-- `node[key] = value`, for a value that is there. -/
def setSome (key : String) (value : Option String) (node : Node) : Option Node :=
  match value with
  | some value => node.set key (.scalar value)
  | none => some node

/-- The text of a level other than the unknown one. -/
def Level.written (level : Level) : Option String :=
  if level ≠ .unknow then some level.toString else none

/-- The type of an appender, with the file if it has one. -/
def AppenderKind.buildType : AppenderKind → Option Node
  | .stdout => Node.null.set "type" (.scalar "StdoutLogAppender")
  | .file filename => do
    let node ← Node.null.set "type" (.scalar "FileLogAppender")
    node.set "file" (.scalar filename)

/-- The node of an appender, with its level and its own pattern where they are written. -/
def AppenderKind.build (kind : AppenderKind) (level formatter : Option String) : Option Node := do
  let node ← kind.buildType
  let node ← setSome "level" level node
  setSome "formatter" formatter node

/-- The node of a logger, with the nodes of its appenders. -/
def buildLogger (name : String) (level formatter : Option String) (appenders : List Node) :
    Option Node := do
  let node ← Node.null.set "name" (.scalar name)
  let node ← setSome "level" level node
  let node ← setSome "formatter" formatter node
  appenders.foldlM (fun node a => pushBack "appenders" a node) node

/-- The node of the manager: `push_back` makes a sequence of a null node. -/
def buildManager (loggers : List Node) : Node :=
  match loggers with
  | [] => .null
  | _ :: _ => .sequence loggers

section

variable {Text : Type} (L : Library Text)

/-- `toYamlString` of both kinds of appender -/
def LogAppender.toYamlString (ap : LogAppender) : Option Text :=
  let formatter := if ap.hasFormatter then ap.formatter.map LogFormatter.pattern else none
  (ap.kind.build ap.level.written formatter).map L.emit

/-- `Logger::toYamlString` -/
def Logger.toYamlString (logger : Logger) : Option Text := do
  let nodes ← logger.appenders.mapM fun i => (i.toYamlString L).bind L.load
  let node ← buildLogger logger.name logger.level.written (some logger.formatter.pattern) nodes
  return L.emit node

/-- `LoggerManager::toYamlString`, over the loggers in the order of the map -/
def LoggerManager.toYamlString (loggers : List Logger) : Option Text := do
  let nodes ← loggers.mapM fun i => (i.toYamlString L).bind L.load
  return L.emit (buildManager nodes)

/-- `insert` of a set of definitions, which compares names only. -/
def LogDefines.insert (defines : LogDefines) (d : LogDefine) : LogDefines :=
  if (defines.find d.name).isSome then defines
  else
    { items := defines.items.filter (·.name < d.name) ++
        d :: defines.items.filter fun i => d.name < i.name
      sorted := by
        refine List.pairwise_append.mpr ⟨defines.sorted.filter _, ?_, fun i hi j hj => ?_⟩
        · refine List.pairwise_cons.mpr ⟨fun j hj => ?_, defines.sorted.filter _⟩
          exact of_decide_eq_true (List.mem_filter.mp hj).2
        · have hlt := of_decide_eq_true (List.mem_filter.mp hi).2
          obtain rfl | hj := List.mem_cons.mp hj
          · exact hlt
          · exact String.lt_trans hlt (of_decide_eq_true (List.mem_filter.mp hj).2) }

theorem LogDefines.sorted_nil : ([] : List LogDefine).Pairwise (·.name < ·.name) :=
  List.Pairwise.nil

/-- `LexicalCast<std::string, std::set<LogDefine>>` -/
def LogDefines.fromStr (v : Text) : Option LogDefines := do
  let node ← L.load v
  let items ← (LogDefine.cast L).takeSequence L node
  return items.foldl insert ⟨[], sorted_nil⟩

end

end Xupeng.Log
