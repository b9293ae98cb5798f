import Xupeng.Models.Log.Correctness.Reconfiguration
import Xupeng.Models.Log.Correctness.Serialisation
import Xupeng.Models.Log.Interpretation.Export

/-!
# Loggers that are written and configured again

The text of the manager is read as the definitions of its loggers. Configured by them, a fresh
manager has the same loggers with their levels, patterns and appenders, under two conditions on
patterns: they are not empty and not in error. The levels of the appenders are written but not
read, so all of them are lost.
-/

namespace Xupeng.Log

open Yaml Config

/-- The field of a text that is there. -/
def fieldOf (key : String) (value : Option String) : List (String × Node) :=
  value.toList.map fun value => (key, .scalar value)

/-- A field that is new stands behind the others. -/
theorem setSome_ofFields {fields : List (String × Node)} {key : String}
    (h : key ∉ fields.map Prod.fst) (value : Option String) :
    setSome key value (.ofFields fields) = some (.ofFields (fields ++ fieldOf key value)) := by
  cases value with
  | none =>
    rw [fieldOf, Option.toList_none, List.map_nil, List.append_nil]
    rfl
  | some value => exact Node.set_ofFields h _

/-! ## Definitions of what there is -/

/-- The definition that an appender is written as, with its own pattern. -/
def AppenderKind.define (kind : AppenderKind) (pattern : Option String) : LogAppenderDefine :=
  match kind with
  | .file filename => { type := 1, formatter := pattern.getD "", file := filename }
  | .stdout => { type := 2, formatter := pattern.getD "" }

/-- The definition that a logger is written as. -/
def Logger.define (logger : Logger) : LogDefine where
  name := logger.name
  level := logger.level
  formatter := logger.formatter.pattern
  appenders := logger.appenders.map fun ap => ap.kind.define ap.shown.pattern

/-! ## Writing -/

/-- The fields of an appender's kind. -/
def AppenderKind.fields : AppenderKind → List (String × Node)
  | .stdout => [("type", .scalar "StdoutLogAppender")]
  | .file filename => [("type", .scalar "FileLogAppender"), ("file", .scalar filename)]

/-- The fields of an appender. -/
theorem AppenderKind.build_eq (kind : AppenderKind) (level formatter : Option String) :
    kind.build level formatter =
      some (.ofFields (kind.fields ++ fieldOf "level" level ++ fieldOf "formatter" formatter)) := by
  have hlevel : "level" ∉ kind.fields.map Prod.fst := by
    cases kind with
    | file filename => simp [fields]
    | stdout => simp [fields]
  have hformatter : "formatter" ∉ (kind.fields ++ fieldOf "level" level).map Prod.fst := by
    cases kind with
    | file filename => cases level <;> simp [fields, fieldOf]
    | stdout => cases level <;> simp [fields, fieldOf]
  have hkind : kind.buildType = some (.ofFields kind.fields) := by
    cases kind with
    | file filename => rfl
    | stdout => rfl
  rw [build, hkind]
  simp only [Option.bind_eq_bind, Option.bind_some]
  rw [setSome_ofFields hlevel, Option.bind_some, setSome_ofFields hformatter]

/-- The appender is read from what is written. -/
theorem AppenderKind.define_fields (kind : AppenderKind) (level pattern : Option String) :
    AppenderFields (kind.fields ++ fieldOf "level" level ++ fieldOf "formatter" pattern)
      (kind.define pattern) := by
  cases kind with
  | file filename =>
    cases level <;> cases pattern <;>
      refine ⟨by simp [fields, fieldOf], Or.inl ⟨rfl, rfl, rfl⟩, ?_, rfl⟩ <;>
      simp [IsText, fields, fieldOf, define, List.lookup_cons]
  | stdout =>
    cases level <;> cases pattern <;>
      refine ⟨by simp [fields, fieldOf], Or.inr ⟨rfl, rfl, rfl⟩, ?_, rfl⟩ <;>
      simp [IsText, fields, fieldOf, define, List.lookup_cons]

/-- The field of the appenders, if there are any. -/
def appendersField (nodes : List Node) : List (String × Node) :=
  match nodes with
  | [] => []
  | _ :: _ => [("appenders", .sequence nodes)]

/-- The fields of a logger beside its appenders. -/
def loggerFields (name : String) (level formatter : Option String) : List (String × Node) :=
  [("name", .scalar name)] ++ fieldOf "level" level ++ fieldOf "formatter" formatter

/-- The loop that pushes the appenders back. -/
theorem foldlM_appenders {fields : List (String × Node)} (h : "appenders" ∉ fields.map Prod.fst)
    (nodes : List Node) :
    nodes.foldlM (fun node a => pushBack "appenders" a node) (Node.ofFields fields) =
      some (.ofFields (fields ++ appendersField nodes)) := by
  have hmore (items nodes : List Node) :
      nodes.foldlM (fun node a => pushBack "appenders" a node)
        (Node.ofFields (fields ++ [("appenders", .sequence items)])) =
      some (.ofFields (fields ++ [("appenders", .sequence (items ++ nodes))])) := by
    induction nodes generalizing items with
    | nil => simp
    | cons node nodes ih =>
      rw [List.foldlM_cons, pushBack_ofFields_last h items node, Option.bind_eq_bind,
        Option.bind_some, ih, List.append_assoc]
      rfl
  cases nodes with
  | nil => simp [appendersField]
  | cons node nodes =>
    rw [List.foldlM_cons, pushBack_ofFields h node, Option.bind_eq_bind, Option.bind_some,
      hmore [node] nodes]
    rfl

theorem buildLogger_eq (name : String) (level formatter : Option String) (nodes : List Node) :
    buildLogger name level formatter nodes =
      some (.ofFields (loggerFields name level formatter ++ appendersField nodes)) := by
  have hlevel : "level" ∉ [("name", Node.scalar name)].map Prod.fst := by simp
  have hformatter : "formatter" ∉
      ([("name", Node.scalar name)] ++ fieldOf "level" level).map Prod.fst := by
    cases level <;> simp [fieldOf]
  have happenders : "appenders" ∉ (loggerFields name level formatter).map Prod.fst := by
    cases level <;> cases formatter <;> simp [loggerFields, fieldOf]
  rw [buildLogger]
  simp only [Node.set_null, Option.bind_eq_bind, Option.bind_some]
  rw [setSome_ofFields hlevel, Option.bind_some, setSome_ofFields hformatter, Option.bind_some]
  exact foldlM_appenders happenders nodes

/-- The logger is read from what is written. -/
theorem Logger.define_fields (logger : Logger) {nodes : List Node}
    (hnodes : List.Forall₂ AppenderNode nodes logger.define.appenders) :
    LoggerFields (loggerFields logger.name logger.level.written (some logger.formatter.pattern) ++
      appendersField nodes) logger.define := by
  have htext : Level.fromString (logger.level.written.getD "") = logger.level := by
    cases logger.level <;> decide
  generalize hlevel : logger.level.written = level at htext
  refine ⟨?_, rfl, ⟨level.getD "", ?_, htext⟩, Or.inl ?_, ?_⟩
  · cases level <;> cases nodes <;> simp [loggerFields, fieldOf, appendersField]
  · cases level <;> cases nodes <;>
      simp [IsText, loggerFields, fieldOf, appendersField, List.lookup_cons]
  · cases level <;> rfl
  · generalize logger.define.appenders = appenders at hnodes
    cases hnodes with
    | nil => exact Or.inl ⟨by cases level <;> rfl, rfl⟩
    | cons hnode hnodes =>
      exact Or.inr ⟨_, by cases level <;> rfl, List.Forall₂.cons hnode hnodes⟩

section

variable {Text : Type} (L : Library Text)

/-- The text of an appender loads as a node that it is read from. -/
theorem LogAppender.exists_load (ap : LogAppender) :
    ∃ node, (ap.toYamlString L).bind L.load = some node ∧
      AppenderNode node (ap.kind.define ap.shown.pattern) := by
  obtain ⟨node, hload, heq⟩ := L.load_emit (.ofFields (ap.kind.fields ++
    fieldOf "level" ap.level.written ++ fieldOf "formatter" ap.shown.pattern))
  refine ⟨node, ?_, AppenderNode.equal ⟨_, rfl, ap.kind.define_fields _ _⟩ heq⟩
  have htext : ap.toYamlString L = some (L.emit _) :=
    congrArg (Option.map L.emit) (ap.kind.build_eq ap.level.written ap.shown.pattern)
  rw [htext]
  exact hload

/-- The text of a logger loads as a node that it is read from. -/
theorem Logger.exists_load (logger : Logger) :
    ∃ node, (logger.toYamlString L).bind L.load = some node ∧ LoggerNode node logger.define := by
  obtain ⟨nodes, hnodes, hall⟩ := exists_mapM_of_forall (l := logger.appenders)
    (f := fun i => (i.toYamlString L).bind L.load)
    (R := fun ap node => AppenderNode node (ap.kind.define ap.shown.pattern))
    fun ap _ => ap.exists_load L
  have hdefine : List.Forall₂ AppenderNode nodes logger.define.appenders :=
    (List.forall₂_map_left_iff.mpr hall).flip
  obtain ⟨node, hload, heq⟩ := L.load_emit (.ofFields (loggerFields logger.name
    logger.level.written (some logger.formatter.pattern) ++ appendersField nodes))
  refine ⟨node, ?_, LoggerNode.equal ⟨_, rfl, logger.define_fields hdefine⟩ heq⟩
  simp only [toYamlString, hnodes, buildLogger_eq, Option.bind_eq_bind, Option.bind_some,
    Option.pure_def]
  exact hload

/-- The definitions are inserted in their order. -/
theorem LogDefines.foldl_insert {ds : List LogDefine} (h : ds.Pairwise (·.name < ·.name)) :
    ds.foldl insert ⟨[], sorted_nil⟩ = ⟨ds, h⟩ := by
  have hinsert {defines : LogDefines} {d : LogDefine} (hd : ∀ i ∈ defines.items, i.name < d.name) :
      (defines.insert d).items = defines.items ++ [d] := by
    have hnone : defines.find d.name = none := by
      refine List.find?_eq_none.mpr fun i hi hname => ?_
      have hlt := hd i hi
      rw [of_decide_eq_true hname] at hlt
      exact String.lt_irrefl _ hlt
    have hbefore : defines.items.filter (·.name < d.name) = defines.items :=
      List.filter_eq_self.mpr fun i hi => decide_eq_true (hd i hi)
    have hafter : defines.items.filter (fun i => d.name < i.name) = [] := by
      refine List.filter_eq_nil_iff.mpr fun i hi hlt => ?_
      exact String.lt_irrefl _ (String.lt_trans (hd i hi) (of_decide_eq_true hlt))
    rw [insert, hnone]
    simp only [Option.isSome_none, Bool.false_eq_true, if_false, hbefore, hafter]
  have hfold (ds : List LogDefine) (defines : LogDefines)
      (h : (defines.items ++ ds).Pairwise (·.name < ·.name)) :
      (ds.foldl insert defines).items = defines.items ++ ds := by
    induction ds generalizing defines with
    | nil => exact (List.append_nil _).symm
    | cons d ds ih =>
      have hd := hinsert fun i hi => (List.pairwise_append.mp h).2.2 i hi d List.mem_cons_self
      have happend : defines.items ++ d :: ds = (defines.insert d).items ++ ds := by
        rw [hd, List.append_assoc]
        rfl
      rw [List.foldl_cons, ih _ (happend ▸ h), happend]
  have hitems := hfold ds ⟨[], sorted_nil⟩ h
  generalize ds.foldl insert ⟨[], sorted_nil⟩ = defines at hitems
  cases defines
  cases hitems
  rfl

/-- The text of the manager is read as the definitions of its loggers. -/
theorem read_toYamlString {loggers : List Logger}
    (h : (loggers.map Logger.define).Pairwise (·.name < ·.name)) :
    (LoggerManager.toYamlString L loggers).bind (LogDefines.fromStr L) =
      some ⟨loggers.map Logger.define, h⟩ := by
  obtain ⟨nodes, hnodes, hall⟩ := exists_mapM_of_forall (l := loggers)
    (f := fun i => (i.toYamlString L).bind L.load)
    (R := fun logger node => LoggerNode node logger.define) fun logger _ => logger.exists_load L
  have hdefines : List.Forall₂ LoggerNode nodes (loggers.map Logger.define) :=
    (List.forall₂_map_left_iff.mpr hall).flip
  obtain ⟨node, hload, heq⟩ := L.load_emit (buildManager nodes)
  have htake : (LogDefine.cast L).takeSequence L node = some (loggers.map Logger.define) := by
    cases nodes with
    | nil =>
      cases heq
      rw [List.forall₂_nil_left_iff.mp hdefines]
      rfl
    | cons first nodes =>
      cases heq with
      | sequence hys =>
        refine Represents.takeSequence_of_reread LoggerNode.reread ⟨_, rfl, ?_⟩
        exact forall₂_left_of_forall₂ (fun a a' b hab heq => hab.equal heq) hdefines hys
  simp only [LoggerManager.toYamlString, hnodes, Option.bind_eq_bind, Option.bind_some,
    Option.pure_def, LogDefines.fromStr, hload, htake, LogDefines.foldl_insert h]

end

/-! ## Configuring again -/

/-- A pattern that a definition can give: it is not empty and not in error. -/
def validPattern (pattern : String) : Bool :=
  pattern ≠ "" && !(LogFormatter.init pattern).error

/-- The default pattern is valid. -/
theorem validPattern_default : validPattern defaultPattern := by decide

/-- A logger without the levels of its appenders. -/
def Shown.withoutLevels (shown : Shown) : Shown :=
  { shown with appenders := shown.appenders.map fun ap => { ap with level := .unknow } }

/-- The patterns of the logger and of its appenders are valid. -/
def Logger.Restorable (logger : Logger) : Prop :=
  validPattern logger.formatter.pattern ∧
    ∀ ap ∈ logger.appenders, ∀ pattern ∈ ap.shown.pattern, validPattern pattern

/-- What becomes of an appender. -/
theorem AppenderKind.make_define (kind : AppenderKind) (pattern : Option String) :
    (kind.define pattern).make.map LogAppender.shown =
      some { kind, level := .unknow, pattern := pattern.filter validPattern } := by
  have hmade (kind : AppenderKind) :
      (let ap : LogAppender := { kind, level := .unknow }
        let fmt := LogFormatter.init (pattern.getD "")
        if pattern.getD "" ≠ "" ∧ fmt.error = false then ap.setFormatter (some fmt) else ap).shown =
      { kind, level := .unknow, pattern := pattern.filter validPattern } := by
    cases pattern with
    | none => rfl
    | some pattern =>
      by_cases hvalid : validPattern pattern
      · have hcond : pattern ≠ "" ∧ (LogFormatter.init pattern).error = false := by
          simpa [validPattern] using hvalid
        simp [hcond, LogAppender.setFormatter, LogAppender.shown, Option.filter, hvalid]
      · have hcond : ¬ (pattern ≠ "" ∧ (LogFormatter.init pattern).error = false) := by
          simpa [validPattern] using hvalid
        simp only [Option.getD_some, if_neg hcond, LogAppender.shown, Option.filter, hvalid]
        rfl
  cases kind with
  | file filename => exact congrArg some (hmade (.file filename))
  | stdout => exact congrArg some (hmade .stdout)

theorem define_shown (logger : Logger) (pattern : String) :
    logger.define.shown pattern =
      { level := logger.level
        pattern := if validPattern logger.formatter.pattern then logger.formatter.pattern
          else pattern
        appenders := logger.appenders.map fun ap =>
          { kind := ap.kind
            level := .unknow
            pattern := ap.shown.pattern.filter validPattern } } := by
  have happenders (appenders : List LogAppender) :
      ((appenders.map fun ap => ap.kind.define ap.shown.pattern).filterMap
        LogAppenderDefine.make).map LogAppender.shown = appenders.map fun ap =>
          { kind := ap.kind
            level := .unknow
            pattern := ap.shown.pattern.filter validPattern } := by
    induction appenders with
    | nil => rfl
    | cons ap appenders ih =>
      obtain ⟨made, hmade, hshown⟩ := Option.map_eq_some_iff.mp
        (ap.kind.make_define ap.shown.pattern)
      rw [List.map_cons, List.filterMap_cons, hmade, List.map_cons, List.map_cons, ih, hshown]
  rw [LogDefine.shown, Logger.define, happenders]
  rfl

/-- The text of the manager, read as a configuration by a fresh manager, makes loggers whose
appenders all have the unknown level; but for these levels a logger is the same exactly when its
patterns are valid. -/
theorem loggers_restored_iff {Text : Type} (L : Library Text) {loggers : List Logger}
    (hsorted : loggers.Pairwise (·.name < ·.name)) :
    ∃ defines, (LoggerManager.toYamlString L loggers).bind (LogDefines.fromStr L) = some defines ∧
      ∀ logger ∈ loggers,
        let restored := ((Configuration.assigned [defines]).manager.getLogger logger.name).shown
        (∀ ap ∈ restored.appenders, ap.level = .unknow) ∧
          (restored = logger.shown.withoutLevels ↔ logger.Restorable) := by
  have hdefines : (loggers.map Logger.define).Pairwise (·.name < ·.name) :=
    List.pairwise_map.mpr hsorted
  refine ⟨_, read_toYamlString L hdefines, fun logger hlogger => ?_⟩
  have hshown := (follows_assigned [⟨loggers.map Logger.define, hdefines⟩]).shown logger.define
    (List.mem_map_of_mem hlogger)
  have hname : logger.define.name = logger.name := rfl
  rw [hname, define_shown] at hshown
  rw [hshown]
  refine ⟨fun ap hap => ?_, ?_⟩
  · obtain ⟨made, -, rfl⟩ := List.mem_map.mp hap
    rfl
  generalize hlast : lastPattern logger.name _ = last
  -- a pattern that is not valid is replaced by the one that a logger starts with
  have hpattern : (if validPattern logger.formatter.pattern then logger.formatter.pattern
      else last) = logger.formatter.pattern ↔ validPattern logger.formatter.pattern := by
    by_cases hvalid : validPattern logger.formatter.pattern
    · simp [hvalid]
    · have hfind : LogDefines.find ⟨loggers.map Logger.define, hdefines⟩ logger.define.name =
          some logger.define := LogDefines.find_of_mem (List.mem_map_of_mem hlogger)
      have hinvalid : logger.define.valid = false := Bool.eq_false_iff.mpr hvalid
      have hdefault : last = defaultPattern := by
        rw [← hlast, lastPattern, List.foldl_cons, List.foldl_nil, nextPattern, ← hname, hfind]
        simp only [hinvalid, Bool.false_eq_true, if_false]
      refine iff_of_false ?_ hvalid
      rw [if_neg hvalid, hdefault]
      intro heq
      exact hvalid (heq ▸ validPattern_default)
  have hown (pattern : Option String) : pattern.filter validPattern = pattern ↔
      ∀ p ∈ pattern, validPattern p := by
    cases pattern with
    | none => simp
    | some p =>
      by_cases hp : validPattern p
      · simp [Option.filter, hp]
      · simp [Option.filter, hp]
  simp only [Shown.withoutLevels, Logger.shown, List.map_map, Shown.mk.injEq, true_and, hpattern,
    List.map_inj_left, Function.comp, ShownAppender.mk.injEq]
  refine and_congr Iff.rfl (forall₂_congr fun ap _ => ?_)
  exact ⟨fun h => (hown _).mp h.2, fun h => ⟨rfl, (hown _).mpr h⟩⟩

/-- A root logger whose appender takes errors only. -/
def errorsOnly : Logger := { name := "root", appenders := [{ kind := .stdout, level := .error }] }

/-- It is configured again with an appender that takes everything. -/
theorem loggers_restored_errorsOnly :
    ∃ defines, (LoggerManager.toYamlString Library.tree [errorsOnly]).bind
        (LogDefines.fromStr Library.tree) = some defines ∧
      ((Configuration.assigned [defines]).manager.getLogger "root").shown =
        errorsOnly.shown.withoutLevels ∧
      errorsOnly.shown.withoutLevels ≠ errorsOnly.shown := by
  have hrestorable : errorsOnly.Restorable := by
    refine ⟨validPattern_default, fun ap hap pattern hpattern => ?_⟩
    obtain rfl := List.mem_singleton.mp hap
    cases hpattern
  obtain ⟨defines, hread, hiff⟩ :=
    loggers_restored_iff Library.tree (List.pairwise_singleton _ errorsOnly)
  exact ⟨defines, hread, (hiff _ List.mem_cons_self).2.mpr hrestorable, by decide⟩

end Xupeng.Log
