import Mathlib.Logic.Function.Basic
import Xupeng.Models.Yaml.Node

/-!
# Loading a configuration

`ListAllMember` walks over the maps of a document and lists each node under the names of the
keys that lead to it, separated by dots. It does not go into a node whose name has a
character outside of the alphabet. `LoadFromYaml` hands the text of each listed node to
the variable of that name, if there is one.

A name is the list of its characters. A variable is known by what `fromString` makes of
it.
-/

namespace Xupeng.Config

open Yaml

/-- The characters of a name, in `ListAllMember` and in `Lookup`. -/
def alphabet : List Char := "abcdefghijklmnopqrstuvwxyz._012345678".toList

/-- `find_first_not_of(…) == npos` -/
def Accepted (name : List Char) : Prop := ∀ c ∈ name, c ∈ alphabet

instance (name : List Char) : Decidable (Accepted name) :=
  List.decidableBAll (· ∈ alphabet) name

/-- `prefix.empty() ? it->first.Scalar() : prefix + "." + it->first.Scalar()` -/
def extend (pre key : List Char) : List Char := if pre = [] then key else pre ++ '.' :: key

mutual

/-- `ListAllMember` -/
def listAllMember (pre : List Char) (node : Node) : List (List Char × Node) :=
  if Accepted pre then
    (pre, node) ::
      match node with
      | .map entries => listEntries pre entries
      | _ => []
  else []

/-- The loop over the entries of a map. -/
def listEntries (pre : List Char) : List (Node × Node) → List (List Char × Node)
  | [] => []
  | (key, value) :: entries =>
    listAllMember (extend pre key.text.toList) value ++ listEntries pre entries

end

/-- The text that a variable is given: `Scalar()` of a scalar, and otherwise what is emitted. -/
def given (emit : Node → String) : Node → String
  | .scalar text => text
  | node => emit node

/-- `std::transform(…, ::tolower)` -/
def lower (name : List Char) : List Char := name.map Char.toLower

/-- `GetDatas()`. `Lookup` makes no variable with another name. -/
structure Datas (V : Type) where
  find : List Char → Option V
  accepted : ∀ name, (find name).isSome → Accepted name

/-- The variables, and the calls of `fromString` on them with their names and arguments. -/
structure Loading (V : Type) where
  datas : Datas V
  calls : List (List Char × String)

variable {V : Type}

/-- A variable that is there has a new state. -/
def Datas.set (datas : Datas V) (name : List Char) (var : V) (h : (datas.find name).isSome) :
    Datas V where
  find := Function.update datas.find name (some var)
  accepted other hother := by
    by_cases hname : other = name
    · exact hname ▸ datas.accepted name h
    · rw [Function.update_of_ne hname] at hother
      exact datas.accepted other hother

/-- One turn of the loop in `LoadFromYaml`. -/
def visit (emit : Node → String) (fromString : String → V → V) (s : Loading V)
    (i : List Char × Node) : Loading V :=
  if i.1 = [] then s
  else
    let key := lower i.1
    match h : s.datas.find key with
    | none => s
    | some var =>
      ⟨s.datas.set key (fromString (given emit i.2) var) (Option.isSome_of_eq_some h),
        s.calls ++ [(key, given emit i.2)]⟩

/-- `LoadFromYaml` -/
def loadFromYaml (emit : Node → String) (fromString : String → V → V) (root : Node)
    (datas : Datas V) : Loading V :=
  (listAllMember [] root).foldl (visit emit fromString) ⟨datas, []⟩

end Xupeng.Config
