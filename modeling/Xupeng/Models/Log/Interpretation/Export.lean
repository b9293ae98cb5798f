import Xupeng.Models.Config.Interpretation.Represents
import Xupeng.Models.Log.Native.Export
import Xupeng.Models.Yaml.Fields

/-!
# Nodes that are read as definitions

The text of a logger is loaded and emitted several times before its definition is read: with the
logger it belongs to, with the manager, and by the converters. All that is known of a node is what
every node equal to it has as well, and a definition is read from that.
-/

namespace Xupeng.Log

open Yaml Config

/-- The field has this text. It may be missing if the text is empty. -/
def IsText (field : Option Node) (text : String) : Prop :=
  field = some (.scalar text) ∨ field = none ∧ text = ""

theorem IsText.equal {field field' : Option Node} {text : String} (h : IsText field text)
    (hrel : Option.Rel Node.Equal field field') : IsText field' text := by
  obtain rfl | ⟨rfl, rfl⟩ := h
  · cases hrel with
    | some heq =>
      cases heq
      exact Or.inl rfl
  · cases hrel
    exact Or.inr ⟨rfl, rfl⟩

/-- A field that is there has the same text in both. -/
theorem scalar_of_rel {field field' : Option Node} {text : String}
    (h : field = some (.scalar text)) (hrel : Option.Rel Node.Equal field field') :
    field' = some (.scalar text) := by
  subst h
  cases hrel with
  | some heq =>
    cases heq
    rfl

section

variable {Text : Type} {L : Library Text}

theorem textOf_of_isText {fields : List (String × Node)} {key text : String}
    (h : IsText (fields.lookup key) text) : textOf L key (.ofFields fields) = some text := by
  rw [textOf, Node.find_ofFields]
  obtain h | ⟨h, rfl⟩ := h
  · rw [h]
    rfl
  · rw [h]
    rfl

/-! ## Appenders -/

/-- The fields that an appender is read from. Its level is not. -/
structure AppenderFields (fields : List (String × Node)) (a : LogAppenderDefine) : Prop where
  nodup : (fields.map Prod.fst).Nodup
  kind : (a.type = 1 ∧ fields.lookup "type" = some (.scalar "FileLogAppender") ∧
      fields.lookup "file" = some (.scalar a.file)) ∨
    (a.type = 2 ∧ fields.lookup "type" = some (.scalar "StdoutLogAppender") ∧ a.file = "")
  formatter : IsText (fields.lookup "formatter") a.formatter
  level : a.level = .unknow

/-- A node that an appender is read from. -/
def AppenderNode (node : Node) (a : LogAppenderDefine) : Prop :=
  ∃ fields, node = .ofFields fields ∧ AppenderFields fields a

theorem AppenderNode.equal {node node' : Node} {a : LogAppenderDefine} (h : AppenderNode node a)
    (heq : node.Equal node') : AppenderNode node' a := by
  obtain ⟨fields, rfl, h⟩ := h
  obtain ⟨fields', hnodup, rfl, hrel⟩ := heq.exists_fields h.nodup
  refine ⟨fields', rfl, hnodup, ?_, h.formatter.equal (hrel _), h.level⟩
  obtain ⟨htype, hname, hfile⟩ | ⟨htype, hname, hfile⟩ := h.kind
  · exact Or.inl ⟨htype, scalar_of_rel hname (hrel _), scalar_of_rel hfile (hrel _)⟩
  · exact Or.inr ⟨htype, scalar_of_rel hname (hrel _), hfile⟩

/-- An appender is read from its node. -/
theorem AppenderNode.take {node : Node} {a : LogAppenderDefine} (h : AppenderNode node a) :
    LogAppenderDefine.take L (some node) = some (some a) := by
  obtain ⟨fields, rfl, h⟩ := h
  obtain ⟨type, level, formatter, file⟩ := a
  have hformatter := textOf_of_isText (L := L) h.formatter
  obtain rfl := h.level
  obtain ⟨rfl, hname, hfile⟩ | ⟨rfl, hname, rfl⟩ := h.kind
  · simp [LogAppenderDefine.take, Node.find_ofFields, hname, hfile, Library.asString, hformatter]
  · simp [LogAppenderDefine.take, Node.find_ofFields, hname, Library.asString, hformatter]

/-! ## Loggers -/

/-- The fields that a logger is read from. -/
structure LoggerFields (fields : List (String × Node)) (d : LogDefine) : Prop where
  nodup : (fields.map Prod.fst).Nodup
  name : fields.lookup "name" = some (.scalar d.name)
  level : ∃ text, IsText (fields.lookup "level") text ∧ Level.fromString text = d.level
  formatter : IsText (fields.lookup "formatter") d.formatter
  appenders : (fields.lookup "appenders" = none ∧ d.appenders = []) ∨
    ∃ items, fields.lookup "appenders" = some (.sequence items) ∧
      List.Forall₂ AppenderNode items d.appenders

/-- A node that a logger is read from. -/
def LoggerNode (node : Node) (d : LogDefine) : Prop :=
  ∃ fields, node = .ofFields fields ∧ LoggerFields fields d

theorem LoggerNode.equal {node node' : Node} {d : LogDefine} (h : LoggerNode node d)
    (heq : node.Equal node') : LoggerNode node' d := by
  obtain ⟨fields, rfl, h⟩ := h
  obtain ⟨fields', hnodup, rfl, hrel⟩ := heq.exists_fields h.nodup
  obtain ⟨text, hlevel, htext⟩ := h.level
  refine ⟨fields', rfl, hnodup, scalar_of_rel h.name (hrel _), ⟨text, hlevel.equal (hrel _), htext⟩,
    h.formatter.equal (hrel _), ?_⟩
  have hfield := hrel "appenders"
  obtain ⟨hnone, hempty⟩ | ⟨items, hitems, hall⟩ := h.appenders
  · rw [hnone] at hfield
    refine Or.inl ⟨?_, hempty⟩
    generalize fields'.lookup "appenders" = field at hfield
    cases hfield
    rfl
  · rw [hitems] at hfield
    generalize fields'.lookup "appenders" = field at hfield
    cases hfield with
    | some heq =>
      cases heq with
      | sequence hys =>
        refine Or.inr ⟨_, rfl, forall₂_left_of_forall₂ ?_ hall hys⟩
        exact fun a a' b hab heq => hab.equal heq

/-- The loop over the indices reads the appenders one by one. -/
theorem takeAppenders_sequence {items : List Node} {appenders : List LogAppenderDefine}
    (h : List.Forall₂ AppenderNode items appenders) :
    takeAppenders L (some (.sequence items)) = some appenders := by
  have hitems : (List.range items.length).map (fun x => items[x]?) = items.map some := by
    refine List.ext_getElem (by simp) fun i hi hi' => ?_
    have hlt : i < items.length := by simpa using hi
    simp [List.getElem?_eq_getElem hlt]
  have hread : (items.map some).mapM (LogAppenderDefine.take L) = some (appenders.map some) := by
    refine mapM_eq_some_of_forall₂ (List.forall₂_map_left_iff.mpr ?_)
    exact List.forall₂_map_right_iff.mpr (h.imp fun _ _ => AppenderNode.take)
  rw [← hitems, List.mapM_map] at hread
  have hloop : (List.range (Node.sequence items).size).mapM
      (fun x => LogAppenderDefine.take L ((Node.sequence items).item L.index x)) =
      some (appenders.map some) := hread
  simp [takeAppenders, hloop]

/-- A logger is read from its node. -/
theorem LoggerNode.take {node : Node} {d : LogDefine} (h : LoggerNode node d) :
    LogDefine.take L node = some d := by
  obtain ⟨fields, rfl, h⟩ := h
  obtain ⟨text, hlevel, htext⟩ := h.level
  have htexts : textOf L "level" (.ofFields fields) = some text := textOf_of_isText hlevel
  have hformatter := textOf_of_isText (L := L) h.formatter
  have happenders : takeAppenders L (fields.lookup "appenders") = some d.appenders := by
    obtain ⟨hnone, hempty⟩ | ⟨items, hitems, hall⟩ := h.appenders
    · rw [hnone, hempty]
      rfl
    · rw [hitems]
      exact takeAppenders_sequence hall
  simp only [LogDefine.take, Node.find_ofFields, h.name, htexts, hformatter, happenders,
    Library.asString, Option.bind_eq_bind, Option.bind_some, htext]

/-- A definition is read from the text of such a node. -/
theorem LoggerNode.reread {node : Node} {d : LogDefine} (h : LoggerNode node d) :
    (LogDefine.cast L).fromStr (L.emit node) = some d := by
  obtain ⟨node', hload, heq⟩ := L.load_emit node
  simp only [LogDefine.cast, LexicalCast.ofNode, hload, Option.bind_some]
  exact (h.equal heq).take

end

end Xupeng.Log
