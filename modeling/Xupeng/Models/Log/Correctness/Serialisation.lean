import Xupeng.Models.Log.Native.Define
import Xupeng.Models.Yaml.Fields

/-!
# What is left of a definition that was written

The writer puts the appenders under `appender` and the reader looks for `appenders`. Name,
level and formatter survive, and every appender is lost.
-/

namespace Xupeng.Log

open Yaml

/-- The field of a text, if the condition holds. -/
def fieldIf (cond : Bool) (key value : String) : List (String × Node) :=
  if cond then [(key, .scalar value)] else []

/-- The fields beside the appenders. -/
def LogDefine.fields (i : LogDefine) : List (String × Node) :=
  [("name", .scalar i.name)] ++ fieldIf (i.level ≠ .unknow) "level" i.level.toString ++
    fieldIf (i.formatter ≠ "") "formatter" i.formatter

/-- A field that is written stands behind the others. -/
theorem setIf_ofFields {fields : List (String × Node)} {key : String}
    (h : key ∉ fields.map Prod.fst) (cond : Bool) (value : String) :
    setIf cond key value (.ofFields fields) =
      some (.ofFields (fields ++ fieldIf cond key value)) := by
  cases cond with
  | true => exact Node.set_ofFields h _
  | false => rw [fieldIf, if_neg Bool.false_ne_true, List.append_nil]; rfl

/-- The keys beside the appenders are among three. -/
theorem LogDefine.mem_fields_keys {i : LogDefine} {key : String}
    (h : key ∈ i.fields.map Prod.fst) : key = "name" ∨ key = "level" ∨ key = "formatter" := by
  simp only [fields, fieldIf, List.map_append, List.mem_append] at h
  obtain (h | h) | h := h
  · exact Or.inl (by simpa using h)
  · split at h
    · exact Or.inr (Or.inl (by simpa using h))
    · simp at h
  · split at h
    · exact Or.inr (Or.inr (by simpa using h))
    · simp at h

/-- A field is set at every node that is no scalar, which it stays. -/
theorem setIf_asMap {node : Node} (h : node.asMap.isSome) (cond : Bool) (key value : String) :
    ∃ node', setIf cond key value node = some node' ∧ node'.asMap.isSome := by
  obtain ⟨entries, hentries⟩ := Option.isSome_iff_exists.mp h
  cases cond with
  | true =>
    refine ⟨.map (Node.put key (.scalar value) entries), ?_, rfl⟩
    simp [setIf, Node.set, hentries]
  | false => exact ⟨node, rfl, h⟩

/-- An appender is always written. -/
theorem LogAppenderDefine.exists_build (a : LogAppenderDefine) : ∃ node, a.build = some node := by
  have hstart : ∃ na, a.buildType = some na ∧ na.asMap.isSome := by
    unfold buildType
    split
    · exact ⟨_, rfl, rfl⟩
    · split
      · exact ⟨_, rfl, rfl⟩
      · exact ⟨_, rfl, rfl⟩
  obtain ⟨na, hna, hmap⟩ := hstart
  obtain ⟨na', hna', hmap'⟩ := setIf_asMap hmap (a.level ≠ .unknow) "level" a.level.toString
  obtain ⟨node, hnode, -⟩ := setIf_asMap hmap' (a.formatter ≠ "") "formatter" a.formatter
  refine ⟨node, ?_⟩
  rw [build, Option.bind_eq_bind, hna, Option.bind_some, hna', Option.bind_some, hnode]

theorem lookup_of_notMem {fields : List (String × Node)} {key : String}
    (h : key ∉ fields.map Prod.fst) : fields.lookup key = none := by
  refine List.lookup_eq_none_iff.mpr fun e he => ?_
  have hne : key ≠ e.1 := fun heq => h (heq ▸ List.mem_map_of_mem he)
  simpa using hne

/-- The first element that is pushed back. -/
theorem pushBack_ofFields {fields : List (String × Node)} {key : String}
    (h : key ∉ fields.map Prod.fst) (value : Node) :
    pushBack key value (.ofFields fields) =
      some (.ofFields (fields ++ [(key, .sequence [value])])) := by
  simp only [pushBack, Node.find_ofFields, lookup_of_notMem h, Option.bind_eq_bind,
    Option.bind_some]
  exact Node.set_ofFields h _

/-- Another element that is pushed back. -/
theorem pushBack_ofFields_last {fields : List (String × Node)} {key : String}
    (h : key ∉ fields.map Prod.fst) (items : List Node) (value : Node) :
    pushBack key value (.ofFields (fields ++ [(key, .sequence items)])) =
      some (.ofFields (fields ++ [(key, .sequence (items ++ [value]))])) := by
  have hlookup : (fields ++ [(key, Node.sequence items)]).lookup key = some (.sequence items) := by
    simp [List.lookup_append, lookup_of_notMem h]
  simp only [pushBack, Node.find_ofFields, hlookup, Option.bind_eq_bind, Option.bind_some]
  exact Node.set_ofFields_last h _ _

/-- What stands behind the other fields: nothing, or the appenders. -/
def Tail (tail : List (String × Node)) : Prop :=
  tail = [] ∨ ∃ items, tail = [("appender", .sequence items)]

/-- The loop over the appenders adds to the tail only. -/
theorem foldlM_pushBack {fields : List (String × Node)} (h : "appender" ∉ fields.map Prod.fst)
    (appenders : List LogAppenderDefine) {tail : List (String × Node)} (htail : Tail tail) :
    ∃ tail', Tail tail' ∧ appenders.foldlM (fun n a => do pushBack "appender" (← a.build) n)
      (Node.ofFields (fields ++ tail)) = some (.ofFields (fields ++ tail')) := by
  induction appenders generalizing tail with
  | nil => exact ⟨tail, htail, rfl⟩
  | cons a appenders ih =>
    obtain ⟨node, hnode⟩ := a.exists_build
    have hpush : ∃ tail', Tail tail' ∧ pushBack "appender" node (.ofFields (fields ++ tail)) =
        some (.ofFields (fields ++ tail')) := by
      obtain rfl | ⟨items, rfl⟩ := htail
      · refine ⟨_, Or.inr ⟨[node], rfl⟩, ?_⟩
        rw [List.append_nil]
        exact pushBack_ofFields h node
      · exact ⟨_, Or.inr ⟨items ++ [node], rfl⟩, pushBack_ofFields_last h items node⟩
    obtain ⟨tail', htail', hpush⟩ := hpush
    obtain ⟨tail'', htail'', hfold⟩ := ih htail'
    refine ⟨tail'', htail'', ?_⟩
    rw [List.foldlM_cons]
    simp only [hnode, Option.bind_eq_bind, Option.bind_some, hpush]
    exact hfold

/-- A definition is always written, with its appenders behind the other fields. -/
theorem LogDefine.exists_build (i : LogDefine) :
    ∃ tail, Tail tail ∧ i.build = some (.ofFields (i.fields ++ tail)) := by
  have happender : "appender" ∉ i.fields.map Prod.fst := by
    intro hmem
    have hkeys := mem_fields_keys hmem
    revert hkeys
    decide
  obtain ⟨tail, htail, hfold⟩ := foldlM_pushBack happender i.appenders (Or.inl rfl)
  refine ⟨tail, htail, ?_⟩
  have hlevel : "level" ∉ [("name", Node.scalar i.name)].map Prod.fst := by simp
  have hformatter : "formatter" ∉ ([("name", Node.scalar i.name)] ++
      fieldIf (i.level ≠ .unknow) "level" i.level.toString).map Prod.fst := by
    cases hcond : decide (i.level ≠ .unknow) <;> simp [fieldIf]
  rw [build]
  simp only [Node.set_null, Option.bind_eq_bind, Option.bind_some]
  rw [setIf_ofFields hlevel, Option.bind_some, setIf_ofFields hformatter, Option.bind_some]
  rw [List.append_nil] at hfold
  exact hfold

/-! ## Reading back -/

/-- A field is found if it was written. -/
theorem lookup_fieldIf (cond : Bool) (key value key' : String) :
    (fieldIf cond key value).lookup key' =
      if cond ∧ key' = key then some (.scalar value) else none := by
  cases cond with
  | true =>
    by_cases h : key' = key
    · simp [fieldIf, h]
    · simp [fieldIf, List.lookup_cons, beq_eq_false_iff_ne.mpr h, h]
  | false => simp [fieldIf]

/-- There is only one key behind the other fields. -/
theorem Tail.lookup {tail : List (String × Node)} (h : Tail tail) {key : String}
    (hkey : key ≠ "appender") : tail.lookup key = none := by
  obtain rfl | ⟨items, rfl⟩ := h
  · rfl
  · simp [List.lookup_cons, beq_eq_false_iff_ne.mpr hkey]

/-- What the reader finds in the node of a definition. -/
theorem LogDefine.lookup_fields (i : LogDefine) {tail : List (String × Node)} (h : Tail tail)
    {key : String} (hkey : key ≠ "appender") :
    (i.fields ++ tail).lookup key =
      ((if key = "name" then some (.scalar i.name) else none).or
        (if decide (i.level ≠ .unknow) ∧ key = "level" then some (.scalar i.level.toString)
          else none)).or
        (if decide (i.formatter ≠ "") ∧ key = "formatter" then some (.scalar i.formatter)
          else none) := by
  have hname : [("name", Node.scalar i.name)] = fieldIf true "name" i.name := rfl
  rw [fields, hname, List.lookup_append, List.lookup_append, List.lookup_append, h.lookup hkey,
    Option.or_none, lookup_fieldIf, lookup_fieldIf, lookup_fieldIf]
  simp

/-- No field is there twice. -/
theorem LogDefine.nodup_fields (i : LogDefine) {tail : List (String × Node)} (h : Tail tail) :
    ((i.fields ++ tail).map Prod.fst).Nodup := by
  unfold fields fieldIf
  obtain rfl | ⟨items, rfl⟩ := h
  · split <;> split <;> simp
  · split <;> split <;> simp

section

variable {Text : Type} {L : Library Text}

/-- A text that was written under a condition is read back, or is empty. -/
theorem textOf_of_equal {fields : List (String × Node)} (hfields : (fields.map Prod.fst).Nodup)
    {node : Node} (h : (Node.ofFields fields).Equal node) {key value : String} {cond : Bool}
    (hkey : fields.lookup key = if cond then some (.scalar value) else none) :
    textOf L key node = some (if cond then value else "") := by
  cases cond with
  | true =>
    rw [textOf, h.find_scalar hfields hkey]
    rfl
  | false =>
    rw [textOf, h.find_none hfields hkey]
    rfl

/-- The level is read back, and the unknown one from its absence. -/
theorem Level.fromString_of_known (level : Level) :
    fromString (if decide (level ≠ .unknow) then level.toString else "") = level := by
  by_cases h : level = .unknow
  · simp [h, fromString]
  · simp [h, fromString_toString]

/-- An empty text needs no field. -/
theorem text_of_nonempty (text : String) : (if decide (text ≠ "") then text else "") = text := by
  by_cases h : text = ""
  · simp [h]
  · simp [h]

/-- Reading what was written keeps all but the appenders. -/
theorem LogDefine.read_written (i : LogDefine) (place : List Nat) :
    ((cast L).toStr place i).bind (cast L).fromStr = some { i with appenders := [] } := by
  obtain ⟨tail, htail, hbuild⟩ := i.exists_build
  obtain ⟨node, hload, hnode⟩ := L.load_emit (.ofFields (i.fields ++ tail))
  have hfields := i.nodup_fields htail
  have hname : (i.fields ++ tail).lookup "name" = some (.scalar i.name) := rfl
  have hlevel : textOf L "level" node =
      some (if decide (i.level ≠ .unknow) then i.level.toString else "") := by
    refine textOf_of_equal hfields hnode ?_
    rw [i.lookup_fields htail (by decide)]
    simp
  have hformatter : textOf L "formatter" node =
      some (if decide (i.formatter ≠ "") then i.formatter else "") := by
    refine textOf_of_equal hfields hnode ?_
    rw [i.lookup_fields htail (by decide)]
    simp
  have happenders : (i.fields ++ tail).lookup "appenders" = none := by
    rw [i.lookup_fields htail (by decide)]
    simp
  have htake : take L node = some { i with appenders := [] } := by
    simp only [take, hnode.find_scalar hfields hname, hlevel, hformatter,
      hnode.find_none hfields happenders, Library.asString, takeAppenders, Option.bind_eq_bind,
      Option.bind_some, Level.fromString_of_known, text_of_nonempty]
  simp only [cast, Config.LexicalCast.ofNode, hbuild, Option.map_some, Option.bind_some, hload]
  exact htake

/-- A definition is read as it was written exactly when it has no appenders. -/
theorem logDefine_roundTrip_iff (L : Library Text) (place : List Nat) (d : LogDefine) :
    ((LogDefine.cast L).toStr place d).bind (LogDefine.cast L).fromStr = some d ↔
      d.appenders = [] := by
  rw [d.read_written place, Option.some.injEq]
  constructor
  · intro h
    rw [← h]
  · intro h
    rw [← h]

end

/-- A definition without appenders is read back. -/
theorem logDefine_roundTrip_rootLogger :
    let d : LogDefine := { name := "root", level := .info, formatter := "%m%n" }
    ((LogDefine.cast Library.tree).toStr [] d).bind (LogDefine.cast Library.tree).fromStr =
      some d :=
  (logDefine_roundTrip_iff Library.tree [] _).mpr rfl

/-- A logger that writes to a file and to the standard output. -/
def systemLogger : LogDefine :=
  { name := "system"
    level := .debug
    formatter := "%d%T%m%n"
    appenders := [{ type := 1, file := "system.txt" }, { type := 2 }] }

/-- Both appenders are lost. -/
theorem logDefine_lost_systemLogger :
    ((LogDefine.cast Library.tree).toStr [] systemLogger).bind
      (LogDefine.cast Library.tree).fromStr ≠ some systemLogger := by
  rw [systemLogger.read_written []]
  decide

end Xupeng.Log
