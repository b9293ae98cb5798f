import Xupeng.Models.Config.Interpretation.Represents

/-!
# Containers survive the way through text

For every type built of containers over `int`, what is written for a value is read as that
value. By induction on the type there are nodes that stand for its values.
-/

namespace Xupeng.Config

open Yaml

variable {Text : Type}

/-- Every type has nodes that stand for its values. -/
theorem Ty.represents (L : Library Text) : ∀ t : Ty, ∃ R, Represents L (t.cast L) R
  | int => ⟨_, Represents.int⟩
  | vector t => (represents L t).imp' Represents.Items fun _ h => h.vector
  | list t => (represents L t).imp' Represents.Items fun _ h => h.list
  | set t => (represents L t).imp' Represents.Elements fun _ h => h.set
  | unorderedSet t => (represents L t).imp' Represents.Elements fun _ h => h.unorderedSet
  | map t => (represents L t).imp' Represents.Entries fun _ h => h.map
  | unorderedMap t => (represents L t).imp' Represents.Entries fun _ h => h.unorderedMap

/-- A value of any type of containers is written, and what is written is read as that value. -/
theorem containers_roundTrip (L : Library Text) (t : Ty) (place : List Nat) (v : t.Value) :
    ((t.cast L).toStr place v).bind (t.cast L).fromStr = some v := by
  obtain ⟨R, hR⟩ := t.represents L
  obtain ⟨text, node, htext, -, -, hread⟩ := hR.written place v
  rw [htext, Option.bind_some, hread]

/-- A vector of two numbers with its text, and a map of vectors. -/
theorem containers_roundTrip_ports :
    let c := (Ty.vector .int).cast Library.tree
    let v : (Ty.vector .int).Value := [(80 : Int32), (-1 : Int32)]
    let m : (Ty.map (.vector .int)).Value := Finmap.singleton "ports" v
    c.toStr [] v = some (.sequence [.scalar "80", .scalar "-1"]) ∧
      (c.toStr [] v).bind c.fromStr = some v ∧
      (((Ty.map (.vector .int)).cast Library.tree).toStr [] m).bind
        ((Ty.map (.vector .int)).cast Library.tree).fromStr = some m :=
  ⟨rfl, containers_roundTrip _ _ _ _, containers_roundTrip _ _ _ _⟩

end Xupeng.Config
