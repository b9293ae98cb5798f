import Xupeng.Models.Log.Native.Logger

/-!
# Loggers after a history of configurations

Level and appenders of a logger follow from its definition alone. Its formatter does not: a
definition that gives none, or one that is in error, leaves the formatter that an earlier
definition of the same name has set.
-/

namespace Xupeng.Log

/-- An appender as it is compared: its kind, its level and the pattern of its own formatter. -/
structure ShownAppender where
  kind : AppenderKind
  level : Level
  pattern : Option String
  deriving DecidableEq, Repr

/-- A logger as it is compared. -/
structure Shown where
  level : Level
  pattern : String
  appenders : List ShownAppender
  deriving DecidableEq, Repr

def LogAppender.shown (ap : LogAppender) : ShownAppender where
  kind := ap.kind
  level := ap.level
  pattern := if ap.hasFormatter then ap.formatter.map (·.pattern) else none

def Logger.shown (logger : Logger) : Shown where
  level := logger.level
  pattern := logger.formatter.pattern
  appenders := logger.appenders.map LogAppender.shown

/-- The definition has a formatter that is not in error. -/
def LogDefine.valid (i : LogDefine) : Bool :=
  i.formatter ≠ "" && !(LogFormatter.init i.formatter).error

/-- A logger with this definition, and with this pattern if the definition gives none. -/
def LogDefine.shown (i : LogDefine) (pattern : String) : Shown where
  level := i.level
  pattern := if i.valid then i.formatter else pattern
  appenders := (i.appenders.filterMap LogAppenderDefine.make).map LogAppender.shown

/-- The value in the end. -/
def lastValue (values : List LogDefines) : LogDefines :=
  values.getLast?.getD Configuration.init.g_log_defines.val

/-- The pattern after one more value. -/
def nextPattern (name pattern : String) (v : LogDefines) : String :=
  match v.find name with
  | some i => if i.valid then i.formatter else pattern
  | none => pattern

/-- The last valid formatter that the values give for a name. -/
def lastPattern (name : String) (values : List LogDefines) : String :=
  values.foldl (nextPattern name) defaultPattern

/-! ## One logger -/

/-- An appender that is added is shown as it is. -/
theorem shown_addAppender {ap : LogAppender} (h : ap.hasFormatter = ap.formatter.isSome)
    (logger : Logger) :
    (logger.addAppender ap).shown =
      { logger.shown with appenders := logger.shown.appenders ++ [ap.shown] } := by
  cases hformatter : ap.formatter with
  | none =>
    rw [hformatter] at h
    simp [Logger.addAppender, Logger.shown, LogAppender.shown, hformatter, h]
  | some fmt => simp [Logger.addAppender, Logger.shown, hformatter]

/-- Appenders that are added one by one are shown behind the others. -/
theorem shown_foldl_addAppender {appenders : List LogAppender}
    (h : ∀ ap ∈ appenders, ap.hasFormatter = ap.formatter.isSome) (logger : Logger) :
    (appenders.foldl (fun logger ap => logger.addAppender ap) logger).shown =
      { logger.shown with
        appenders := logger.shown.appenders ++ appenders.map LogAppender.shown } := by
  induction appenders generalizing logger with
  | nil => simp
  | cons ap appenders ih =>
    rw [List.foldl_cons, ih fun ap hap => h ap (List.mem_cons_of_mem _ hap),
      shown_addAppender (h ap List.mem_cons_self)]
    simp

/-- An appender that is made of a definition has a formatter exactly when it is its own. -/
theorem hasFormatter_of_make {a : LogAppenderDefine} {ap : LogAppender} (h : a.make = some ap) :
    ap.hasFormatter = ap.formatter.isSome := by
  have hmade : ∀ kind : AppenderKind, ∀ val : Option LogFormatter,
      ((({ kind, level := a.level } : LogAppender).setFormatter val).hasFormatter =
        (({ kind, level := a.level } : LogAppender).setFormatter val).formatter.isSome) :=
    fun _ _ => rfl
  unfold LogAppenderDefine.make at h
  dsimp only at h
  split at h
  · cases h
    split
    · exact hmade _ _
    · rfl
  · split at h
    · cases h
      split
      · exact hmade _ _
      · rfl
    · cases h

/-- What a definition makes of a logger. -/
theorem shown_configure (i : LogDefine) (logger : Logger) :
    (logger.configure i).shown = i.shown logger.shown.pattern := by
  have happenders : ∀ ap ∈ i.appenders.filterMap LogAppenderDefine.make,
      ap.hasFormatter = ap.formatter.isSome := by
    intro ap hap
    obtain ⟨a, -, ha⟩ := List.mem_filterMap.mp hap
    exact hasFormatter_of_make ha
  rw [Logger.configure, shown_foldl_addAppender happenders]
  by_cases hempty : i.formatter = ""
  · simp [LogDefine.shown, LogDefine.valid, hempty, Logger.shown, Logger.clearAppender,
      Logger.setLevel]
  · cases herror : (LogFormatter.init i.formatter).error with
    | true =>
      simp [LogDefine.shown, LogDefine.valid, hempty, herror, Logger.shown, Logger.clearAppender,
        Logger.setPattern, Logger.setLevel]
    | false =>
      simp [LogDefine.shown, LogDefine.valid, hempty, herror, Logger.shown, Logger.clearAppender,
        Logger.setPattern, Logger.setFormatter, Logger.setLevel]

/-- A definition with a valid formatter does not need another one. -/
theorem shown_of_valid (i : LogDefine) (pattern : String) :
    i.shown (if i.valid then i.formatter else pattern) = i.shown pattern := by
  cases h : i.valid with
  | true => simp [LogDefine.shown, h]
  | false => simp

/-! ## The listener -/

/-- The names of the definitions differ. -/
theorem LogDefines.nodup (defines : LogDefines) : (defines.items.map LogDefine.name).Nodup := by
  refine (List.pairwise_map.mpr defines.sorted).imp ?_
  intro a b hab heq
  exact String.lt_irrefl b (heq ▸ hab)

/-- A definition is found by its name. -/
theorem LogDefines.name_of_find {defines : LogDefines} {name : String} {i : LogDefine}
    (h : defines.find name = some i) : i.name = name := by
  simpa using List.find?_some h

/-- A definition is found under its name. -/
theorem LogDefines.find_of_mem {defines : LogDefines} {i : LogDefine} (h : i ∈ defines.items) :
    defines.find i.name = some i := by
  have hsome : (defines.find i.name).isSome := List.find?_isSome.mpr ⟨i, h, by simp⟩
  obtain ⟨j, hj⟩ := Option.isSome_iff_exists.mp hsome
  have hmem := List.mem_of_find?_eq_some hj
  rw [hj, List.inj_on_of_nodup_map defines.nodup hmem h (name_of_find hj)]

/-- A loop over definitions of different names, each of which acts on the logger of its name. -/
theorem getLogger_foldl {f : LoggerManager → LogDefine → LoggerManager}
    {g : LogDefine → Logger → Logger}
    (hf : ∀ m i name, (f m i).getLogger name =
      if i.name = name then g i (m.getLogger name) else m.getLogger name)
    {items : List LogDefine} (hitems : (items.map LogDefine.name).Nodup) (m : LoggerManager)
    (name : String) :
    (items.foldl f m).getLogger name =
      match items.find? (·.name = name) with
      | some i => g i (m.getLogger name)
      | none => m.getLogger name := by
  induction items generalizing m with
  | nil => rfl
  | cons i items ih =>
    rw [List.map_cons, List.nodup_cons] at hitems
    rw [List.foldl_cons, ih hitems.2, hf, List.find?_cons]
    by_cases hname : i.name = name
    · have hnone : items.find? (·.name = name) = none := by
        refine List.find?_eq_none.mpr fun j hj hjname => hitems.1 ?_
        rw [hname, ← of_decide_eq_true hjname]
        exact List.mem_map_of_mem hj
      rw [hnone, if_pos hname]
      simp [hname]
    · rw [if_neg hname]
      simp [hname]

/-- Other loggers are not touched. -/
theorem getLogger_modify (m : LoggerManager) (name other : String) (f : Logger → Logger) :
    (m.modify name f).getLogger other =
      if name = other then f (m.getLogger other) else m.getLogger other := by
  by_cases h : name = other
  · simp [LoggerManager.modify, LoggerManager.getLogger, h]
  · simp [LoggerManager.modify, LoggerManager.getLogger, h, Ne.symm h]

/-- What the listener does to the logger of a name. -/
theorem getLogger_changed (old_value new_value : LogDefines) (m : LoggerManager) (name : String) :
    (onLoggerConfChanged old_value new_value m).getLogger name =
      match new_value.find name with
      | some i =>
        if old_value.find name = some i then m.getLogger name
        else (m.getLogger name).configure i
      | none =>
        if old_value.find name = none then m.getLogger name else (m.getLogger name).retire := by
  have hconfigure : (new_value.items.foldl (configureChanged old_value) m).getLogger name =
      match new_value.find name with
      | some i =>
        if old_value.find i.name = some i then m.getLogger name
        else (m.getLogger name).configure i
      | none => m.getLogger name := by
    refine getLogger_foldl (g := fun i logger => if old_value.find i.name = some i then logger
      else logger.configure i) (fun m i name => ?_) new_value.nodup m name
    unfold configureChanged
    split
    · simp
    · exact getLogger_modify m i.name name _
  have hretire : ∀ m : LoggerManager,
      (old_value.items.foldl (retireGone new_value) m).getLogger name =
        match old_value.find name with
        | some i =>
          if new_value.find i.name = none then (m.getLogger name).retire else m.getLogger name
        | none => m.getLogger name := by
    refine fun m => getLogger_foldl (g := fun i logger => if new_value.find i.name = none then
      logger.retire else logger) (fun m i name => ?_) old_value.nodup m name
    unfold retireGone
    split
    · exact getLogger_modify m i.name name _
    · simp
  rw [onLoggerConfChanged, hretire, hconfigure]
  cases hnew : new_value.find name with
  | none =>
    cases hold : old_value.find name with
    | none => simp
    | some j => simp [LogDefines.name_of_find hold, hnew]
  | some i =>
    cases hold : old_value.find name with
    | none => simp [LogDefines.name_of_find hnew, hold]
    | some j => simp [LogDefines.name_of_find hold, LogDefines.name_of_find hnew, hnew, hold]

/-! ## Histories -/

theorem lastValue_append (values : List LogDefines) (v : LogDefines) :
    lastValue (values ++ [v]) = v := by
  simp [lastValue]

theorem lastPattern_append (name : String) (values : List LogDefines) (v : LogDefines) :
    lastPattern name (values ++ [v]) = nextPattern name (lastPattern name values) v := by
  simp [lastPattern]

/-- A definition that stays does not change the pattern. -/
theorem lastPattern_same {name : String} {values : List LogDefines} {v : LogDefines}
    (h : v.find name = (lastValue values).find name) :
    lastPattern name (values ++ [v]) = lastPattern name values := by
  rw [lastPattern_append, nextPattern, h]
  induction values using List.reverseRecOn with
  | nil => rfl
  | append_singleton values w =>
    rw [lastValue_append, lastPattern_append, nextPattern]
    cases w.find name with
    | none => rfl
    | some i =>
      dsimp only
      split <;> rfl

/-- The configuration after a history: all patterns, and the loggers that are defined. -/
structure Follows (values : List LogDefines) (s : Configuration) : Prop where
  val : s.g_log_defines.val = lastValue values
  cbs : s.g_log_defines.cbs = [(1, onLoggerConfChanged)]
  pattern : ∀ name, (s.manager.getLogger name).shown.pattern = lastPattern name values
  shown : ∀ i ∈ (lastValue values).items,
    (s.manager.getLogger i.name).shown = i.shown (lastPattern i.name values)

theorem Follows.init : Follows [] .init where
  val := rfl
  cbs := rfl
  pattern name := by
    by_cases h : name = "root"
    · rw [h]
      rfl
    · simp [Configuration.init, LoggerManager.fresh, LoggerManager.getLogger, h, Logger.shown,
        lastPattern]
  shown := nofun

/-- One assignment. -/
theorem Follows.setValue {values : List LogDefines} {s : Configuration} (h : Follows values s)
    (v : LogDefines) : Follows (values ++ [v]) (s.setValue v) := by
  -- A logger whose definition stays is as it was before.
  have hsame : ∀ i, (lastValue values).find i.name = some i → v.find i.name = some i →
      (s.manager.getLogger i.name).shown = i.shown (lastPattern i.name (values ++ [v])) := by
    intro i hold hnew
    rw [lastPattern_same (hnew.trans hold.symm)]
    exact h.shown i (List.mem_of_find?_eq_some hold)
  by_cases hv : v = s.g_log_defines.val
  · have hset : s.setValue v = s := by
      simp [Configuration.setValue, ConfigVar.compare, hv]
    have hlast : v = lastValue values := hv.trans h.val
    rw [hset]
    refine ⟨h.val.trans (hlast.symm.trans (lastValue_append values v).symm), h.cbs, ?_, ?_⟩
    · intro name
      rw [h.pattern name, lastPattern_same (by rw [hlast])]
    · intro i hi
      rw [lastValue_append] at hi
      have hfind := LogDefines.find_of_mem hi
      exact hsame i (hlast ▸ hfind) hfind
  · have hlast : v ≠ lastValue values := h.val ▸ hv
    have hset : s.setValue v = ⟨s.g_log_defines.assign v,
        onLoggerConfChanged (lastValue values) v s.manager⟩ := by
      simp [Configuration.setValue, ConfigVar.compare, hlast, h.cbs, h.val]
    rw [hset]
    refine ⟨(lastValue_append values v).symm, h.cbs, ?_, ?_⟩
    · intro name
      dsimp only
      rw [getLogger_changed]
      cases hnew : v.find name with
      | none =>
        have hpattern : lastPattern name (values ++ [v]) = lastPattern name values := by
          rw [lastPattern_append, nextPattern, hnew]
        rw [hpattern, ← h.pattern name]
        dsimp only
        split <;> rfl
      | some i =>
        dsimp only
        split
        · next hold =>
          rw [h.pattern name, lastPattern_same (hnew.trans hold.symm)]
        · rw [shown_configure, h.pattern name, lastPattern_append, nextPattern, hnew]
          rfl
    · intro i hi
      rw [lastValue_append] at hi
      have hnew := LogDefines.find_of_mem hi
      dsimp only
      rw [getLogger_changed, hnew]
      dsimp only
      split
      · next hold => exact hsame i hold hnew
      · rw [shown_configure, h.pattern i.name, lastPattern_append, nextPattern, hnew]
        dsimp only
        rw [shown_of_valid]

/-- The configuration after any history. -/
theorem follows_assigned (values : List LogDefines) : Follows values (.assigned values) := by
  induction values using List.reverseRecOn with
  | nil => exact Follows.init
  | append_singleton values v ih =>
    rw [Configuration.assigned, List.foldl_append]
    exact ih.setValue v

/-- Two histories with the same value in the end leave the loggers that it defines alike exactly
when, for every definition without a valid formatter, the last valid formatter that they gave
for its name is the same. -/
theorem loggers_alike_iff (values values' : List LogDefines)
    (hend : lastValue values = lastValue values') :
    (∀ i ∈ (lastValue values).items,
      ((Configuration.assigned values).manager.getLogger i.name).shown =
        ((Configuration.assigned values').manager.getLogger i.name).shown) ↔
      ∀ i ∈ (lastValue values).items, i.valid = false →
        lastPattern i.name values = lastPattern i.name values' := by
  refine forall₂_congr fun i hi => ?_
  rw [(follows_assigned values).shown i hi, (follows_assigned values').shown i (hend ▸ hi)]
  cases hvalid : i.valid with
  | true => simp [LogDefine.shown, hvalid]
  | false => simp [LogDefine.shown, hvalid]

/-- One definition of the logger `system`. -/
def systemOnly (level : Level) (formatter : String) : LogDefines :=
  ⟨[{ name := "system", level, formatter, appenders := [{ type := 2 }] }],
    List.pairwise_singleton _ _⟩

/-- A definition with a formatter, and then another one. -/
def twice (formatter : String) : List LogDefines :=
  [systemOnly .debug "%d%T%m%n", systemOnly .info formatter]

/-- The second definition alone. -/
def once (formatter : String) : List LogDefines := [systemOnly .info formatter]

/-- The second definition has a formatter of its own. -/
theorem loggers_alike_ownFormatter :
    lastValue (twice "%m%n") = lastValue (once "%m%n") ∧
      ∀ i ∈ (lastValue (twice "%m%n")).items,
        ((Configuration.assigned (twice "%m%n")).manager.getLogger i.name).shown =
          ((Configuration.assigned (once "%m%n")).manager.getLogger i.name).shown :=
  ⟨rfl, (loggers_alike_iff (twice "%m%n") (once "%m%n") rfl).mpr (by decide)⟩

/-- The second definition has none, and the logger keeps that of the first one. -/
theorem loggers_differ_keptFormatter :
    lastValue (twice "") = lastValue (once "") ∧ ¬ ∀ i ∈ (lastValue (twice "")).items,
      ((Configuration.assigned (twice "")).manager.getLogger i.name).shown =
        ((Configuration.assigned (once "")).manager.getLogger i.name).shown := by
  decide

end Xupeng.Log
