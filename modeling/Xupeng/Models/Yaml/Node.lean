import Mathlib.Data.List.Forall2

/-!
# Nodes of YAML documents

The nodes of yaml-cpp with what the program does to them. A node that is not there is
undefined, which is `none`; an operation that throws has no result at all.
-/

namespace Xupeng.Yaml

/-- `YAML::Node`, where it is defined. -/
inductive Node
  | null
  | scalar (text : String)
  | sequence (items : List Node)
  | map (entries : List (Node × Node))

namespace Node

/-- `Scalar()`, which is empty for a node that is none. -/
def text : Node → String
  | scalar text => text
  | _ => ""

/-- Whether the node compares equal to a text. -/
def isText (key : String) : Node → Bool
  | scalar text => text == key
  | _ => false

/-- `size()` -/
def size : Node → Nat
  | sequence items => items.length
  | map entries => entries.length
  | _ => 0

/-- What a subscript takes the node for: a sequence becomes the map from its indices. There is no
such map for a scalar, and the subscript throws. -/
def asMap : Node → Option (List (Node × Node))
  | null => some []
  | scalar _ => none
  | sequence items => some (items.zipIdx.map fun e => (scalar (toString e.2), e.1))
  | map entries => some entries

/-- `node[key]`, read. -/
def find (key : String) (node : Node) : Option (Option Node) :=
  node.asMap.map fun entries => (entries.find? (·.1.isText key)).map Prod.snd

/-- The entries after an assignment to `node[key]`. -/
def put (key : String) (value : Node) : List (Node × Node) → List (Node × Node)
  | [] => [(scalar key, value)]
  | e :: entries => if e.1.isText key then (e.1, value) :: entries else e :: put key value entries

/-- `node[key] = value` -/
def set (node : Node) (key : String) (value : Node) : Option Node :=
  node.asMap.map fun entries => map (put key value entries)

/-- `node[i]` for an index below the size. The keys of a map are read as numbers. -/
def item (index : String → Option Nat) (i : Nat) : Node → Option Node
  | sequence items => items[i]?
  | map entries => (entries.find? fun e => match e.1 with
      | scalar text => index text == some i
      | _ => false).map Prod.snd
  | _ => none

/-- The loop from `begin()` to `end()` over keys and values. The elements of a sequence have no
key, and its `Scalar()` throws. -/
def pairs : Node → Option (List (String × Node))
  | null | scalar _ | sequence [] => some []
  | sequence (_ :: _) => none
  | map entries => some (entries.map fun e => (e.1.text, e.2))

/-- Two nodes are equal when sequences agree in order and maps have the same keys with equal
values, in any order. -/
inductive Equal : Node → Node → Prop
  | null : Equal null null
  | scalar (text : String) : Equal (scalar text) (scalar text)
  | sequence {xs ys : List Node} (h : List.Forall₂ Equal xs ys) :
      Equal (sequence xs) (sequence ys)
  | map {xs ys zs : List (Node × Node)}
      (hkeys : List.Forall₂ Equal (xs.map Prod.fst) (ys.map Prod.fst))
      (hvalues : List.Forall₂ Equal (xs.map Prod.snd) (ys.map Prod.snd)) (hperm : ys.Perm zs) :
      Equal (map xs) (map zs)

/-- Every node is equal to itself. -/
theorem Equal.refl : ∀ node : Node, node.Equal node
  | .null => Equal.null
  | .scalar text => Equal.scalar text
  | .sequence items => by
    refine Equal.sequence (List.forall₂_same.mpr fun x hx => ?_)
    have hsize := List.sizeOf_lt_of_mem hx
    exact Equal.refl x
  | .map entries => by
    have hsize : ∀ e ∈ entries, sizeOf e.1 < sizeOf entries ∧ sizeOf e.2 < sizeOf entries := by
      intro e he
      have hlt := List.sizeOf_lt_of_mem he
      rcases e with ⟨key, value⟩
      simp only [Prod.mk.sizeOf_spec] at hlt
      exact ⟨by dsimp only; omega, by dsimp only; omega⟩
    refine Equal.map ?_ ?_ (List.Perm.refl _)
    · refine List.forall₂_same.mpr fun x hx => ?_
      obtain ⟨e, he, rfl⟩ := List.mem_map.mp hx
      have hlt := (hsize e he).1
      exact Equal.refl e.1
    · refine List.forall₂_same.mpr fun x hx => ?_
      obtain ⟨e, he, rfl⟩ := List.mem_map.mp hx
      have hlt := (hsize e he).2
      exact Equal.refl e.2
termination_by node => sizeOf node
decreasing_by all_goals simp_wf; omega

/-! ## Entries -/

@[simp]
theorem isText_scalar {key text : String} : (scalar text).isText key = true ↔ text = key := by
  simp [isText]

/-- A key that is not there is appended. -/
theorem put_of_forall {key : String} {value : Node} {entries : List (Node × Node)}
    (h : ∀ e ∈ entries, e.1.isText key = false) :
    put key value entries = entries ++ [(scalar key, value)] := by
  induction entries with
  | nil => rfl
  | cons e entries ih =>
    rw [put, h e List.mem_cons_self, ih fun e he => h e (List.mem_cons_of_mem _ he)]
    rfl

/-- Assignments under different keys, none of which is there, append their entries in order. -/
theorem foldl_put {pairs : List (String × Node)} (hpairs : (pairs.map Prod.fst).Nodup)
    {entries : List (Node × Node)}
    (h : ∀ e ∈ entries, ∀ key ∈ pairs.map Prod.fst, e.1.isText key = false) :
    pairs.foldl (fun es e => put e.1 e.2 es) entries =
      entries ++ pairs.map fun e => (scalar e.1, e.2) := by
  induction pairs generalizing entries with
  | nil => simp
  | cons e pairs ih =>
    rw [List.map_cons, List.nodup_cons] at hpairs
    rw [List.foldl_cons, put_of_forall fun x hx => h x hx e.1 (by simp), ih hpairs.2]
    · simp
    · intro x hx key hkey
      rcases List.mem_append.mp hx with hx | hx
      · exact h x hx key (List.mem_cons_of_mem _ hkey)
      · obtain rfl := List.mem_singleton.mp hx
        have hne : e.1 ≠ key := fun heq => hpairs.1 (heq ▸ hkey)
        simpa [isText] using hne

end Node

end Xupeng.Yaml
