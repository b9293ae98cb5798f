import Mathlib.Data.Multiset.Basic
import Xupeng.Core.Numeral
import Xupeng.Models.Yaml.Node

/-!
# What is taken from the libraries

Texts are written and read by yaml-cpp and by `boost::lexical_cast`, and sets and maps are
traversed by the standard library. The program is followed for any such libraries that meet
the laws here: loading what was emitted gives an equal node, and the text of an `int` is
read back, both as the number and as a scalar that is emitted as it was.
-/

namespace Xupeng.Yaml

/-- The libraries, over the texts that they read and write. -/
structure Library (Text : Type) where
  /-- `YAML::Load` -/
  load : Text → Option Node
  /-- `ss << node` for a node that is defined. -/
  emit : Node → Text
  /-- What is left in the stream for a node that is undefined. -/
  blank : Text
  /-- A scalar taken as a `size_t`. -/
  index : String → Option Nat
  /-- A null node taken as a string, where the version of the library does not throw. -/
  ofNull : Option String
  /-- `boost::lexical_cast<std::string>` of an `int` -/
  ofInt : Int32 → Text
  /-- `boost::lexical_cast<int>` -/
  toInt : Text → Option Int32
  /-- The order in which a set or a map is traversed. It is open and need not be the same for
  equal containers at different places of a value. -/
  traverse : List Nat → {α : Type} → Multiset α → List α
  load_emit : ∀ node, ∃ node', load (emit node) = some node' ∧ node.Equal node'
  load_ofInt : ∀ i, ∃ text, load (ofInt i) = some (.scalar text) ∧ emit (.scalar text) = ofInt i
  toInt_ofInt : ∀ i, toInt (ofInt i) = some i
  traverse_coe : ∀ place {α : Type} (s : Multiset α), (traverse place s : Multiset α) = s

namespace Library

variable {Text : Type} (L : Library Text)

/-- `ss << node` -/
def write (node : Option Node) : Text := node.elim L.blank L.emit

/-- `as<std::string>()` -/
def asString : Node → Option String
  | .scalar text => some text
  | .null => L.ofNull
  | _ => none

/-- An `int` in decimal. -/
def writeInt (i : Int32) : List Char :=
  if i.toInt < 0 then '-' :: decimal i.toInt.natAbs else decimal i.toInt.natAbs

/-- A decimal number with or without a sign. -/
def readInt : List Char → Option Int32
  | '-' :: digits => (readNumeral 10 digits).map fun n : Nat => .ofInt (-n)
  | digits => (readNumeral 10 digits).map fun n : Nat => .ofInt n

theorem readInt_writeInt (i : Int32) : readInt (writeInt i) = some i := by
  unfold writeInt
  split
  · rename_i hneg
    have habs : -(i.toInt.natAbs : Int) = i.toInt := by omega
    rw [readInt, readNumeral_decimal, Option.map_some, habs, Int32.ofInt_toInt]
  · rename_i hpos
    have habs : (i.toInt.natAbs : Int) = i.toInt := by omega
    rw [readInt, readNumeral_decimal, Option.map_some, habs, Int32.ofInt_toInt]
    intro digits heq
    have hminus : '-' ∉ decimal i.toInt.natAbs := notMem_decimal (by decide) _
    exact hminus (heq ▸ List.mem_cons_self)

/-- Documents that are their own trees, with numbers in decimal. -/
noncomputable def tree : Library Node where
  load := some
  emit := id
  blank := .null
  index := String.toNat?
  ofNull := some "null"
  ofInt i := .scalar (String.ofList (writeInt i))
  toInt node := readInt node.text.toList
  traverse _ _ s := s.toList
  load_emit node := ⟨node, rfl, Node.Equal.refl node⟩
  load_ofInt _ := ⟨_, rfl, rfl⟩
  toInt_ofInt i := by
    rw [Node.text, String.toList_ofList]
    exact readInt_writeInt i
  traverse_coe _ _ s := s.coe_toList

end Library

end Xupeng.Yaml
