import Mathlib.Data.List.Basic
import Xupeng.Models.Config.Native.LoadFromYaml

/-!
# The places of a document

A place is where maps lead to: the indices of the entries, their keys and the node at the
end. The places of a document in the order of their indices are the nodes that
`ListAllMember` would list if every name were accepted, and it lists those with an
accepted name.
-/

namespace Xupeng.Config

open Yaml

/-- A node that is reached through maps. -/
structure Place where
  /-- The indices of the entries on the way. -/
  position : List Nat
  /-- The keys of the entries. -/
  keys : List (List Char)
  node : Node

/-- Go to a position: the keys on the way and the node that is there. -/
def descend : Node → List Nat → Option (List (List Char) × Node)
  | node, [] => some ([], node)
  | .map entries, i :: position =>
    entries[i]?.bind fun e =>
      (descend e.2 position).map fun found => (e.1.text.toList :: found.1, found.2)
  | _, _ :: _ => none

/-- The place is one of the document. -/
def Place.In (root : Node) (x : Place) : Prop := descend root x.position = some (x.keys, x.node)

/-- A place below the entry with this index and key. -/
def Place.under (i : Nat) (key : Node) (x : Place) : Place :=
  ⟨i :: x.position, key.text.toList :: x.keys, x.node⟩

mutual

/-- All places of a document. -/
def places (node : Node) : List Place :=
  ⟨[], [], node⟩ ::
    match node with
    | .map entries => placesFrom 0 entries
    | _ => []

/-- The places below the entries of a map, of which the first has the index `i`. -/
def placesFrom (i : Nat) : List (Node × Node) → List Place
  | [] => []
  | (key, value) :: entries => (places value).map (Place.under i key) ++ placesFrom (i + 1) entries

end

/-- The name that `ListAllMember` gives to the place. -/
def Place.name (pre : List Char) (x : Place) : List Char := x.keys.foldl extend pre

/-! ## Every place, once and in order -/

/-- The places below entries are those below one of them. -/
theorem mem_placesFrom {x : Place} (i : Nat) (entries : List (Node × Node)) :
    x ∈ placesFrom i entries ↔
      ∃ j e y, entries[j]? = some e ∧ y ∈ places e.2 ∧ x = Place.under (i + j) e.1 y := by
  induction entries generalizing i with
  | nil => simp [placesFrom]
  | cons e entries ih =>
    obtain ⟨key, value⟩ := e
    rw [placesFrom, List.mem_append, ih]
    constructor
    · rintro (hx | ⟨j, e, y, he, hy, rfl⟩)
      · obtain ⟨y, hy, rfl⟩ := List.mem_map.mp hx
        exact ⟨0, (key, value), y, rfl, hy, rfl⟩
      · refine ⟨j + 1, e, y, he, hy, ?_⟩
        rw [Nat.add_right_comm, Nat.add_assoc]
    · rintro ⟨j, e, y, he, hy, rfl⟩
      cases j with
      | zero =>
        cases he
        exact .inl (List.mem_map_of_mem hy)
      | succ j =>
        refine .inr ⟨j, e, y, he, hy, ?_⟩
        rw [Nat.add_right_comm, Nat.add_assoc]

theorem mem_places {x : Place} (node : Node) : x ∈ places node ↔ x.In node := by
  obtain ⟨position, keys, final⟩ := x
  induction position generalizing node keys with
  | nil =>
    have hcons (y : Place) (i : Nat) (entries : List (Node × Node)) :
        y ∈ placesFrom i entries → y.position ≠ [] := by
      intro hy
      obtain ⟨j, e, z, -, -, rfl⟩ := (mem_placesFrom i entries).mp hy
      exact List.cons_ne_nil _ _
    cases node with
    | map entries =>
      rw [places, List.mem_cons, or_iff_left fun hx => hcons _ _ _ hx rfl]
      simp [Place.In, descend, eq_comm]
    | _ => simp [places, Place.In, descend, eq_comm]
  | cons i position ih =>
    cases node with
    | map entries =>
      rw [places, List.mem_cons, or_iff_right nofun, mem_placesFrom]
      simp only [Place.In, descend, Option.bind_eq_some_iff, Option.map_eq_some_iff]
      constructor
      · rintro ⟨j, e, ⟨p, k, n⟩, he, hy, heq⟩
        simp only [Place.under, Nat.zero_add, Place.mk.injEq, List.cons.injEq] at heq
        obtain ⟨⟨rfl, rfl⟩, rfl, rfl⟩ := heq
        exact ⟨e, he, (k, _), (ih e.2 k).mp hy, rfl⟩
      · rintro ⟨e, he, ⟨k, n⟩, hdescend, heq⟩
        cases heq
        refine ⟨i, e, ⟨position, k, n⟩, he, (ih e.2 k).mpr hdescend, ?_⟩
        rw [Nat.zero_add]
        rfl
    | _ => simp [places, Place.In, descend]

/-- A node comes before those below it, and what is below an entry before what is below a later
one. -/
def Ordered (l : List Place) : Prop := l.Pairwise fun x y => x.position < y.position

mutual

/-- The places are in the order of the document. -/
theorem places_ordered (node : Node) : Ordered (places node) := by
  cases node with
  | map entries =>
    refine List.pairwise_cons.mpr ⟨fun x hx => ?_, placesFrom_ordered 0 entries⟩
    obtain ⟨j, e, y, -, -, rfl⟩ := (mem_placesFrom 0 entries).mp hx
    exact List.nil_lt_cons _ _
  | _ => exact List.pairwise_singleton _ _

theorem placesFrom_ordered (i : Nat) (entries : List (Node × Node)) :
    Ordered (placesFrom i entries) := by
  cases entries with
  | nil => exact List.Pairwise.nil
  | cons e entries =>
    obtain ⟨key, value⟩ := e
    refine List.pairwise_append.mpr ⟨?_, placesFrom_ordered (i + 1) entries, ?_⟩
    · refine List.pairwise_map.mpr ((places_ordered value).imp fun hlt => ?_)
      exact List.cons_lt_cons_iff.mpr (.inr ⟨rfl, hlt⟩)
    · intro x hx y hy
      obtain ⟨x, -, rfl⟩ := List.mem_map.mp hx
      obtain ⟨j, e, y, -, -, rfl⟩ := (mem_placesFrom (i + 1) entries).mp hy
      exact List.cons_lt_cons_iff.mpr (.inl (by omega))

end

/-! ## The names -/

/-- The characters of the prefix stay in the name. -/
theorem mem_extend {c : Char} {pre key : List Char} (h : c ∈ pre) : c ∈ extend pre key := by
  unfold extend
  split
  · rename_i hnil
    rw [hnil] at h
    cases h
  · exact List.mem_append_left _ h

/-- A name is accepted only if every name on the way to it is. -/
theorem accepted_of_foldl {pre : List Char} {keys : List (List Char)}
    (h : Accepted (keys.foldl extend pre)) : Accepted pre := by
  induction keys generalizing pre with
  | nil => exact h
  | cons key keys ih => exact fun c hc => ih h c (mem_extend hc)

mutual

/-- `ListAllMember` lists the places with an accepted name. -/
theorem listAllMember_eq (pre : List Char) (node : Node) :
    listAllMember pre node =
      ((places node).map fun x => (x.name pre, x.node)).filter fun m => Accepted m.1 := by
  by_cases hpre : Accepted pre
  · cases node with
    | map entries =>
      rw [listAllMember, if_pos hpre, places, List.map_cons, List.filter_cons]
      simp only [listEntries_eq pre 0 entries]
      exact (if_pos (decide_eq_true hpre)).symm
    | _ =>
      unfold listAllMember places
      rw [if_pos hpre, List.map_cons, List.filter_cons]
      exact (if_pos (decide_eq_true hpre)).symm
  · unfold listAllMember
    rw [if_neg hpre, eq_comm, List.filter_eq_nil_iff]
    intro m hm hname
    obtain ⟨x, -, rfl⟩ := List.mem_map.mp hm
    exact hpre (accepted_of_foldl (of_decide_eq_true hname))

theorem listEntries_eq (pre : List Char) (i : Nat) (entries : List (Node × Node)) :
    listEntries pre entries =
      ((placesFrom i entries).map fun x => (x.name pre, x.node)).filter fun m => Accepted m.1 := by
  cases entries with
  | nil => rfl
  | cons e entries =>
    obtain ⟨key, value⟩ := e
    rw [listEntries, placesFrom, List.map_append, List.filter_append, List.map_map,
      listAllMember_eq, listEntries_eq pre (i + 1) entries]
    rfl

end

end Xupeng.Config
