import Xupeng.Core.Pointwise
import Xupeng.Models.Yaml.Node

/-!
# Nodes with named fields

A map whose keys are texts. Reading a field of it and setting one that is not there are
operations on the list of its fields, and a node that is equal to it has equal fields.
-/

namespace Xupeng.Yaml.Node

/-- The map with these fields. -/
def ofFields (fields : List (String × Node)) : Node :=
  map (fields.map fun e => (scalar e.1, e.2))

theorem find_ofFields (fields : List (String × Node)) (key : String) :
    (ofFields fields).find key = some (fields.lookup key) := by
  simp only [find, ofFields, asMap, Option.map_some, Option.some.injEq]
  induction fields with
  | nil => rfl
  | cons e fields ih =>
    rw [List.map_cons, List.find?_cons, List.lookup_cons, isText, Bool.beq_comm]
    split
    · rfl
    · exact ih

theorem set_null (key : String) (value : Node) :
    null.set key value = some (ofFields [(key, value)]) := rfl

/-- A field that is not there is appended. -/
theorem set_ofFields {fields : List (String × Node)} {key : String}
    (h : key ∉ fields.map Prod.fst) (value : Node) :
    (ofFields fields).set key value = some (ofFields (fields ++ [(key, value)])) := by
  simp only [set, ofFields, asMap, Option.map_some, List.map_append]
  rw [put_of_forall]
  · rfl
  · intro e he
    obtain ⟨field, hfield, rfl⟩ := List.mem_map.mp he
    have hne : field.1 ≠ key := fun heq => h (heq ▸ List.mem_map_of_mem hfield)
    simpa [isText] using hne

/-- Setting the last field again. -/
theorem set_ofFields_last {fields : List (String × Node)} {key : String}
    (h : key ∉ fields.map Prod.fst) (old value : Node) :
    (ofFields (fields ++ [(key, old)])).set key value =
      some (ofFields (fields ++ [(key, value)])) := by
  simp only [set, ofFields, asMap, Option.map_some, Option.some.injEq, map.injEq]
  induction fields with
  | nil => simp [put, isText]
  | cons e fields ih =>
    rw [List.map_cons, List.mem_cons, not_or] at h
    have hne : (e.1 == key) = false := beq_eq_false_iff_ne.mpr (Ne.symm h.1)
    simp only [List.cons_append, List.map_cons, put, isText, hne, Bool.false_eq_true, if_false,
      ih h.2]

/-- The fields of an equal node are equal, in some order. -/
theorem Equal.of_ofFields {fields : List (String × Node)} {node : Node}
    (h : (ofFields fields).Equal node) :
    ∃ fields' fields'', List.Forall₂ (fun a b : String × Node => b.1 = a.1 ∧ a.2.Equal b.2)
      fields fields' ∧ fields'.Perm fields'' ∧ node = ofFields fields'' := by
  cases h with
  | @map _ ys zs hkeys hvalues hperm =>
    rw [List.forall₂_map_left_iff, List.forall₂_map_right_iff, List.forall₂_map_left_iff]
      at hkeys hvalues
    have hys : ∃ fields', ys = fields'.map (fun e => (Node.scalar e.1, e.2)) ∧
        List.Forall₂ (fun a b : String × Node => b.1 = a.1 ∧ a.2.Equal b.2) fields fields' := by
      clear hperm
      induction hkeys with
      | nil => exact ⟨[], rfl, List.Forall₂.nil⟩
      | @cons a y fields ys hkey _ ih =>
        cases hvalues with
        | cons hvalue hvalues =>
          obtain ⟨fields', rfl, hall⟩ := ih hvalues
          obtain ⟨key, value⟩ := y
          cases hkey
          exact ⟨(a.1, value) :: fields', rfl, List.Forall₂.cons ⟨rfl, hvalue⟩ hall⟩
    obtain ⟨fields', rfl, hall⟩ := hys
    have hinv : Function.LeftInverse (fun e : Node × Node => (e.1.text, e.2))
        fun e : String × Node => (Node.scalar e.1, e.2) := fun _ => rfl
    have hzs : ∀ e ∈ zs, (Node.scalar e.1.text, e.2) = e := by
      intro e he
      obtain ⟨field, -, rfl⟩ := List.mem_map.mp (hperm.mem_iff.mpr he)
      rfl
    refine ⟨fields', zs.map fun e => (e.1.text, e.2), hall, ?_, ?_⟩
    · have hp := hperm.map fun e => (e.1.text, e.2)
      rwa [List.map_map, hinv.comp_eq_id, List.map_id] at hp
    · rw [ofFields, List.map_map]
      refine congrArg Node.map ?_
      exact ((List.map_congr_left hzs).trans (List.map_id zs)).symm

/-- An equal node has the same keys, with equal values. -/
theorem Equal.exists_fields {fields : List (String × Node)}
    (hfields : (fields.map Prod.fst).Nodup) {node : Node} (h : (ofFields fields).Equal node) :
    ∃ fields', (fields'.map Prod.fst).Nodup ∧ node = ofFields fields' ∧
      ∀ key, Option.Rel Equal (fields.lookup key) (fields'.lookup key) := by
  obtain ⟨fields', fields'', hall, hperm, rfl⟩ := h.of_ofFields
  have hkeys : fields'.map Prod.fst = fields.map Prod.fst := by
    rw [← List.forall₂_eq_eq_eq, List.forall₂_map_left_iff, List.forall₂_map_right_iff]
    refine List.Forall₂.flip (hall.imp fun a b hab => ?_)
    exact hab.1
  have hnodup : (fields'.map Prod.fst).Nodup := hkeys ▸ hfields
  refine ⟨fields'', (hperm.map Prod.fst).nodup_iff.mp hnodup, rfl, fun key => ?_⟩
  rw [← lookup_of_perm hperm hnodup key]
  exact rel_lookup_of_forall₂ hall key

/-- Reading a field of an equal node. -/
theorem Equal.find {fields : List (String × Node)} (hfields : (fields.map Prod.fst).Nodup)
    {node : Node} (h : (ofFields fields).Equal node) (key : String) :
    ∃ value, node.find key = some value ∧ Option.Rel Equal (fields.lookup key) value := by
  obtain ⟨fields', fields'', hall, hperm, rfl⟩ := h.of_ofFields
  have hkeys : fields'.map Prod.fst = fields.map Prod.fst := by
    rw [← List.forall₂_eq_eq_eq, List.forall₂_map_left_iff, List.forall₂_map_right_iff]
    refine List.Forall₂.flip (hall.imp fun a b hab => ?_)
    exact hab.1
  refine ⟨_, find_ofFields fields'' key, ?_⟩
  rw [← lookup_of_perm hperm (hkeys ▸ hfields) key]
  exact rel_lookup_of_forall₂ hall key

/-- A scalar field of an equal node is the same. -/
theorem Equal.find_scalar {fields : List (String × Node)}
    (hfields : (fields.map Prod.fst).Nodup) {node : Node} (h : (ofFields fields).Equal node)
    {key text : String} (hkey : fields.lookup key = some (Node.scalar text)) :
    node.find key = some (some (Node.scalar text)) := by
  obtain ⟨value, hvalue, hrel⟩ := h.find hfields key
  rw [hkey] at hrel
  cases hrel with
  | some heq =>
    cases heq
    exact hvalue

/-- A field that is not there is not in an equal node either. -/
theorem Equal.find_none {fields : List (String × Node)} (hfields : (fields.map Prod.fst).Nodup)
    {node : Node} (h : (ofFields fields).Equal node) {key : String}
    (hkey : fields.lookup key = none) : node.find key = some none := by
  obtain ⟨value, hvalue, hrel⟩ := h.find hfields key
  rw [hkey] at hrel
  cases hrel
  exact hvalue

end Xupeng.Yaml.Node
