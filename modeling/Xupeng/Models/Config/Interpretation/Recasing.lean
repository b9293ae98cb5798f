import Xupeng.Models.Config.Interpretation.Calls

/-!
# Changing the case of keys

Two documents are the same up to the case of keys when one becomes the other by changing
letters in the keys of maps. They have the same places, with names that are the same in
lower case.
-/

namespace Xupeng.Config

open Yaml

mutual

/-- The nodes are the same up to the case of letters in the keys of maps. The flag tells that the
node is a key itself or a part of one. -/
inductive Recased : Bool → Node → Node → Prop
  | null (inKey : Bool) : Recased inKey .null .null
  | text (text : String) : Recased false (.scalar text) (.scalar text)
  | key {text text' : String} (h : lower text.toList = lower text'.toList) :
      Recased true (.scalar text) (.scalar text')
  | sequence {inKey : Bool} {xs ys : List Node} (h : RecasedItems inKey xs ys) :
      Recased inKey (.sequence xs) (.sequence ys)
  | map {inKey : Bool} {xs ys : List (Node × Node)} (h : RecasedEntries inKey xs ys) :
      Recased inKey (.map xs) (.map ys)

/-- The items of sequences, one by one. -/
inductive RecasedItems : Bool → List Node → List Node → Prop
  | nil (inKey : Bool) : RecasedItems inKey [] []
  | cons {inKey : Bool} {x y : Node} {xs ys : List Node} (h : Recased inKey x y)
      (hs : RecasedItems inKey xs ys) : RecasedItems inKey (x :: xs) (y :: ys)

/-- The entries of maps, one by one. -/
inductive RecasedEntries : Bool → List (Node × Node) → List (Node × Node) → Prop
  | nil (inKey : Bool) : RecasedEntries inKey [] []
  | cons {inKey : Bool} {key key' value value' : Node} {xs ys : List (Node × Node)}
      (hkey : Recased true key key') (hvalue : Recased inKey value value')
      (hs : RecasedEntries inKey xs ys) :
      RecasedEntries inKey ((key, value) :: xs) ((key', value') :: ys)

end

mutual

theorem Recased.refl (inKey : Bool) (node : Node) : Recased inKey node node := by
  cases node with
  | null => exact .null inKey
  | scalar text =>
    cases inKey with
    | false => exact .text text
    | true => exact .key rfl
  | sequence items => exact .sequence (RecasedItems.refl inKey items)
  | map entries => exact .map (RecasedEntries.refl inKey entries)

theorem RecasedItems.refl (inKey : Bool) (xs : List Node) : RecasedItems inKey xs xs := by
  cases xs with
  | nil => exact .nil inKey
  | cons x xs => exact .cons (Recased.refl inKey x) (RecasedItems.refl inKey xs)

theorem RecasedEntries.refl (inKey : Bool) (xs : List (Node × Node)) :
    RecasedEntries inKey xs xs := by
  cases xs with
  | nil => exact .nil inKey
  | cons e xs =>
    obtain ⟨key, value⟩ := e
    exact .cons (Recased.refl true key) (Recased.refl inKey value) (RecasedEntries.refl inKey xs)

end

/-- `Scalar()` of a key. -/
theorem Recased.lower_text {key key' : Node} (h : Recased true key key') :
    lower key.text.toList = lower key'.text.toList := by
  cases h with
  | key heq => exact heq
  | _ => rfl

/-! ## The same places -/

/-- The same place of two documents. -/
structure Place.Same (x y : Place) : Prop where
  position : x.position = y.position
  keys : x.keys.map lower = y.keys.map lower
  node : Recased false x.node y.node

/-- Places in maps whose keys differ by case only. -/
theorem Place.Same.under {x y : Place} (h : x.Same y) (i : Nat) {key key' : Node}
    (hkey : Recased true key key') : (x.under i key).Same (y.under i key') := by
  refine ⟨congrArg (i :: ·) h.position, ?_, h.node⟩
  simp only [Place.under, List.map_cons, hkey.lower_text, h.keys]

mutual

/-- Documents that differ by case only have the same places, in the same order. -/
theorem places_same (t : Node) {t' : Node} (h : Recased false t t') :
    List.Forall₂ Place.Same (places t) (places t') := by
  have hroot : Place.Same ⟨[], [], t⟩ ⟨[], [], t'⟩ := ⟨rfl, rfl, h⟩
  cases t with
  | map entries =>
    cases h with
    | map hentries =>
      rw [places, places]
      exact .cons hroot (placesFrom_same 0 entries hentries)
  | _ =>
    cases h
    exact .cons hroot .nil

theorem placesFrom_same (i : Nat) (entries : List (Node × Node)) {entries' : List (Node × Node)}
    (h : RecasedEntries false entries entries') :
    List.Forall₂ Place.Same (placesFrom i entries) (placesFrom i entries') := by
  cases entries with
  | nil =>
    cases h
    exact .nil
  | cons e entries =>
    obtain ⟨key, value⟩ := e
    cases h with
    | cons hkey hvalue hrest =>
      rw [placesFrom, placesFrom]
      refine List.rel_append (List.forall₂_map_left_iff.mpr (List.forall₂_map_right_iff.mpr ?_))
        (placesFrom_same (i + 1) entries hrest)
      exact (places_same value hvalue).imp fun _ _ hsame => hsame.under i hkey

end

/-- A change of characters that keeps the dot goes through the names. -/
theorem map_extend {f : Char → Char} (hdot : f '.' = '.') (pre key : List Char) :
    (extend pre key).map f = extend (pre.map f) (key.map f) := by
  unfold extend
  cases pre with
  | nil => rfl
  | cons c pre => simp [hdot]

/-- Changing the case of a name changes that of its keys. -/
theorem map_name {f : Char → Char} (hdot : f '.' = '.') (x : Place) (pre : List Char) :
    (x.name pre).map f = (x.keys.map (·.map f)).foldl extend (pre.map f) := by
  unfold Place.name
  induction x.keys generalizing pre with
  | nil => rfl
  | cons key keys ih =>
    rw [List.foldl_cons, ih, map_extend hdot, List.map_cons, List.foldl_cons]

/-- In lower case the name of a place is made of the keys in lower case. -/
theorem lower_name (x : Place) : lower (x.name []) = (x.keys.map lower).foldl extend [] :=
  map_name rfl x []

/-- The names of the same place are the same in lower case. -/
theorem Place.Same.lower_name {x y : Place} (h : x.Same y) :
    lower (x.name []) = lower (y.name []) := by
  rw [Config.lower_name, Config.lower_name, h.keys]

/-! ## Changing a document -/

/-- A key with another case. -/
def recaseKey (f : Char → Char) : Node → Node
  | .scalar text => .scalar (String.ofList (text.toList.map f))
  | node => node

mutual

/-- The document with another case of all keys that lead to places. -/
def recase (f : Char → Char) (node : Node) : Node :=
  match node with
  | .map entries => .map (recaseEntries f entries)
  | node => node

/-- The entries of a map with another case of their keys. -/
def recaseEntries (f : Char → Char) : List (Node × Node) → List (Node × Node)
  | [] => []
  | (key, value) :: entries => (recaseKey f key, recase f value) :: recaseEntries f entries

end

/-- A place in the document with another case. -/
def Place.recase (f : Char → Char) (x : Place) : Place :=
  ⟨x.position, x.keys.map (·.map f), Config.recase f x.node⟩

variable {f : Char → Char}

/-- The text of a key is changed letter by letter. -/
theorem text_recaseKey (key : Node) : (recaseKey f key).text.toList = key.text.toList.map f := by
  cases key <;> simp [recaseKey, Node.text]

mutual

/-- The places go along with the document. -/
theorem places_recase (node : Node) :
    places (recase f node) = (places node).map (Place.recase f) := by
  cases node with
  | map entries =>
    rw [recase, places, places, List.map_cons, placesFrom_recase 0 entries]
    simp only [Place.recase, recase, List.map_nil]
  | _ => rfl

theorem placesFrom_recase (i : Nat) (entries : List (Node × Node)) :
    placesFrom i (recaseEntries f entries) = (placesFrom i entries).map (Place.recase f) := by
  cases entries with
  | nil => rfl
  | cons e entries =>
    obtain ⟨key, value⟩ := e
    rw [recaseEntries, placesFrom, placesFrom, List.map_append, places_recase value,
      placesFrom_recase (i + 1) entries, List.map_map, List.map_map]
    congr 2
    funext x
    simp only [Function.comp_apply, Place.under, Place.recase, text_recaseKey, List.map_cons]

end

/-- The name of a place with another case. -/
theorem name_recase (x : Place) (hdot : f '.' = '.') :
    (x.recase f).name [] = (x.name []).map f :=
  (map_name hdot x []).symm

/-- A change of case is not seen in lower case. -/
theorem lower_map (hf : ∀ c, (f c).toLower = c.toLower) (name : List Char) :
    lower (name.map f) = lower name := by
  simp only [lower, List.map_map]
  exact List.map_congr_left fun c _ => hf c

/-- A key with its case changed differs by case only. -/
theorem recased_recaseKey (hf : ∀ c, (f c).toLower = c.toLower) (key : Node) :
    Recased true key (recaseKey f key) := by
  cases key with
  | scalar text =>
    refine .key ?_
    rw [String.toList_ofList, lower_map hf]
  | _ => exact Recased.refl true _

mutual

theorem recased_recase (hf : ∀ c, (f c).toLower = c.toLower) (node : Node) :
    Recased false node (recase f node) := by
  cases node with
  | map entries => exact .map (recasedEntries_recaseEntries hf entries)
  | _ => exact Recased.refl false _

theorem recasedEntries_recaseEntries (hf : ∀ c, (f c).toLower = c.toLower)
    (entries : List (Node × Node)) : RecasedEntries false entries (recaseEntries f entries) := by
  cases entries with
  | nil => exact .nil false
  | cons e entries =>
    obtain ⟨key, value⟩ := e
    exact .cons (recased_recaseKey hf key) (recased_recase hf value)
      (recasedEntries_recaseEntries hf entries)

end

/-- One value may be changed for itself. -/
theorem RecasedEntries.set {inKey : Bool} {entries : List (Node × Node)} {i : Nat}
    {e : Node × Node} (he : entries[i]? = some e) {value : Node}
    (h : Recased inKey e.2 value) : RecasedEntries inKey entries (entries.set i (e.1, value)) := by
  induction entries generalizing i with
  | nil => cases he
  | cons e' entries ih =>
    cases i with
    | zero =>
      cases he
      exact .cons (Recased.refl true _) h (RecasedEntries.refl inKey entries)
    | succ i => exact .cons (Recased.refl true _) (Recased.refl inKey _) (ih he)

/-- The node at one place can be replaced alone. -/
theorem exists_recased_at {t : Node} {x : Place} (hx : x.In t) {node : Node}
    (h : Recased false x.node node) :
    ∃ t', Recased false t t' ∧ Place.In t' { x with node } := by
  obtain ⟨position, keys, old⟩ := x
  simp only [Place.In] at hx h ⊢
  induction position generalizing t keys with
  | nil =>
    cases t <;> cases hx <;> exact ⟨node, h, by cases node <;> rfl⟩
  | cons i position ih =>
    cases t with
    | map entries =>
      simp only [descend, Option.bind_eq_some_iff, Option.map_eq_some_iff] at hx
      obtain ⟨e, he, found, hfound, heq⟩ := hx
      cases heq
      obtain ⟨value, hvalue, hdescend⟩ := ih found.1 hfound
      refine ⟨.map (entries.set i (e.1, value)), .map (.set he hvalue), ?_⟩
      have hlt : i < entries.length := (List.getElem?_eq_some_iff.mp he).1
      simp only [descend, List.getElem?_set_self hlt, Option.bind_some, hdescend,
        Option.map_some]
    | _ => cases hx

end Xupeng.Config
