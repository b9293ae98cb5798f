import Mathlib.Data.Finmap
import Xupeng.Models.Yaml.Library

/-!
# Converters between values and text

`LexicalCast` for the containers of the configuration. Each writes its elements as documents
of their own, loads these, and emits the node that it has built of them; the way back emits
every child as a document again and gives it to the converter of the elements.

A set is a `Finset` and a map a `Finmap`; the library chooses the order of a traversal.
-/

namespace Xupeng.Config

open Yaml

/-- `LexicalCast<T, std::string>` and `LexicalCast<std::string, T>`. What is written may depend on
the place of the value inside a larger one, through the order of traversals. -/
structure LexicalCast (Text α : Type) where
  toStr : List Nat → α → Option Text
  fromStr : Text → Option α

namespace LexicalCast

variable {Text α : Type} (L : Library Text)

/-- `boost::lexical_cast` at `int`. -/
def int : LexicalCast Text Int32 where
  toStr _ v := some (L.ofInt v)
  fromStr := L.toInt

/-- A converter that emits the node it builds and takes apart the node it loads. -/
def ofNode (build : List Nat → α → Option Node) (take : Node → Option α) :
    LexicalCast Text α where
  toStr place v := (build place v).map L.emit
  fromStr v := (L.load v).bind take

/-- The document of one element, as a node. -/
def child (c : LexicalCast Text α) (place : List Nat) (v : α) (i : Nat) : Option Node :=
  (c.toStr (i :: place) v).bind L.load

/-- The loop that pushes the elements back to a sequence. -/
def buildSequence (c : LexicalCast Text α) (place : List Nat) (v : List α) : Option Node :=
  (v.zipIdx.mapM fun e => c.child L place e.1 e.2).map .sequence

/-- The loop over the indices of a node. -/
def takeSequence (c : LexicalCast Text α) (node : Node) : Option (List α) :=
  (List.range node.size).mapM fun i => c.fromStr (L.write (node.item L.index i))

/-- The loop that assigns the values of a map under their keys. -/
def buildMap (c : LexicalCast Text α) (place : List Nat) (v : List (Σ _ : String, α)) :
    Option Node := do
  let pairs ← v.zipIdx.mapM fun e => (c.child L place e.1.2 e.2).map fun node => (e.1.1, node)
  some (.map (pairs.foldl (fun entries e => Node.put e.1 e.2 entries) []))

/-- `insert` of a map, which keeps a value that is there. -/
def insertNew (v : Finmap fun _ : String => α) (e : String × α) : Finmap fun _ : String => α :=
  if e.1 ∈ v then v else v.insert e.1 e.2

/-- The loop over the keys and values of a node. -/
def takeMap (c : LexicalCast Text α) (node : Node) : Option (Finmap fun _ : String => α) := do
  let pairs ← node.pairs
  let items ← pairs.mapM fun e => (c.fromStr (L.emit e.2)).map fun v => (e.1, v)
  some (items.foldl insertNew ∅)

/-- `std::vector<T>` -/
def vector (c : LexicalCast Text α) : LexicalCast Text (List α) :=
  ofNode L (c.buildSequence L) (c.takeSequence L)

/-- `std::list<T>` -/
def list (c : LexicalCast Text α) : LexicalCast Text (List α) :=
  ofNode L (c.buildSequence L) (c.takeSequence L)

/-- `std::set<T>` -/
def set [DecidableEq α] (c : LexicalCast Text α) : LexicalCast Text (Finset α) :=
  ofNode L (fun place v => c.buildSequence L place (L.traverse place v.val))
    fun node => (c.takeSequence L node).map fun items => items.foldl (fun v i => insert i v) ∅

/-- `std::unordered_set<T>` -/
def unorderedSet [DecidableEq α] (c : LexicalCast Text α) : LexicalCast Text (Finset α) :=
  ofNode L (fun place v => c.buildSequence L place (L.traverse place v.val))
    fun node => (c.takeSequence L node).map fun items => items.foldl (fun v i => insert i v) ∅

/-- `std::map<std::string, T>` -/
def map (c : LexicalCast Text α) : LexicalCast Text (Finmap fun _ : String => α) :=
  ofNode L (fun place v => c.buildMap L place (L.traverse place v.entries)) (c.takeMap L)

/-- `std::unordered_map<std::string, T>` -/
def unorderedMap (c : LexicalCast Text α) : LexicalCast Text (Finmap fun _ : String => α) :=
  ofNode L (fun place v => c.buildMap L place (L.traverse place v.entries)) (c.takeMap L)

end LexicalCast

/-- The types of configuration values that are built of containers over `int`. -/
inductive Ty
  | int
  | vector (t : Ty)
  | list (t : Ty)
  | set (t : Ty)
  | unorderedSet (t : Ty)
  | map (t : Ty)
  | unorderedMap (t : Ty)
  deriving DecidableEq, Repr

namespace Ty

/-- The values of a type. -/
def Value : Ty → Type
  | int => Int32
  | vector t | list t => List t.Value
  | set t | unorderedSet t => Finset t.Value
  | map t | unorderedMap t => Finmap fun _ : String => t.Value

/-- Values of every type can be compared. -/
instance decidableEqValue : ∀ t : Ty, DecidableEq t.Value
  | int => inferInstanceAs (DecidableEq Int32)
  | vector t | list t =>
    have := decidableEqValue t
    inferInstanceAs (DecidableEq (List t.Value))
  | set t | unorderedSet t =>
    have := decidableEqValue t
    inferInstanceAs (DecidableEq (Finset t.Value))
  | map t | unorderedMap t =>
    have := decidableEqValue t
    inferInstanceAs (DecidableEq (Finmap fun _ : String => t.Value))

/-- The converter that the templates give for a type. -/
def cast {Text : Type} (L : Library Text) : (t : Ty) → LexicalCast Text t.Value
  | int => LexicalCast.int L
  | vector t => LexicalCast.vector L (cast L t)
  | list t => LexicalCast.list L (cast L t)
  | set t => LexicalCast.set L (cast L t)
  | unorderedSet t => LexicalCast.unorderedSet L (cast L t)
  | map t => LexicalCast.map L (cast L t)
  | unorderedMap t => LexicalCast.unorderedMap L (cast L t)

end Ty

end Xupeng.Config
