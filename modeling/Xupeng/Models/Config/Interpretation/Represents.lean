import Xupeng.Core.Pointwise
import Xupeng.Models.Config.Native.LexicalCast

/-!
# Nodes that stand for values

A converter is understood through the nodes that stand for a value. Every node that is equal
to one of these is another one, the text of a value loads as one, and a value is read from
the text of each. A container keeps this when the converter of its elements has it, so the
texts in between, which differ from level to level, never need to be known.
-/

namespace Xupeng.Config

open Yaml

variable {Text α : Type} {L : Library Text} {c : LexicalCast Text α} {R : Node → α → Prop}

/-- The nodes that stand for a value, for a converter and its inverse. -/
structure Represents (L : Library Text) (c : LexicalCast Text α) (R : Node → α → Prop) :
    Prop where
  equal : ∀ {node node' v}, R node v → node.Equal node' → R node' v
  written : ∀ place v, ∃ text node, c.toStr place v = some text ∧ L.load text = some node ∧
    R node v ∧ c.fromStr text = some v
  reread : ∀ {node v}, R node v → c.fromStr (L.emit node) = some v

namespace Represents

/-- A converter by nodes needs to build a node that stands for the value, and to take the value
from every such node. -/
theorem ofNode {build : List Nat → α → Option Node} {take : Node → Option α}
    (hequal : ∀ {node node' v}, R node v → node.Equal node' → R node' v)
    (hbuild : ∀ place v, ∃ node, build place v = some node ∧ R node v)
    (htake : ∀ {node v}, R node v → take node = some v) :
    Represents L (LexicalCast.ofNode L build take) R := by
  have hreread : ∀ {node v}, R node v →
      (LexicalCast.ofNode L build take).fromStr (L.emit node) = some v := by
    intro node v hR
    obtain ⟨node', hload, heq⟩ := L.load_emit node
    simp only [LexicalCast.ofNode, hload, Option.bind_some]
    exact htake (hequal hR heq)
  refine ⟨hequal, fun place v => ?_, hreread⟩
  obtain ⟨node, hnode, hR⟩ := hbuild place v
  obtain ⟨node', hload, heq⟩ := L.load_emit node
  refine ⟨L.emit node, node', ?_, hload, hequal hR heq, hreread hR⟩
  simp only [LexicalCast.ofNode, hnode, Option.map_some]

/-- The document of an element loads as a node that stands for it. -/
theorem child (h : Represents L c R) (place : List Nat) (v : α) (i : Nat) :
    ∃ node, c.child L place v i = some node ∧ R node v := by
  obtain ⟨text, node, htext, hload, hR, -⟩ := h.written (i :: place) v
  exact ⟨node, by simp [LexicalCast.child, htext, hload], hR⟩

/-- An `int` is a scalar that is emitted as its text. -/
theorem int : Represents L (LexicalCast.int L)
    fun node v => ∃ text, node = .scalar text ∧ L.emit (.scalar text) = L.ofInt v where
  equal := by
    rintro node node' v ⟨text, rfl, htext⟩ heq
    cases heq
    exact ⟨text, rfl, htext⟩
  written place v := by
    obtain ⟨text, hload, htext⟩ := L.load_ofInt v
    exact ⟨L.ofInt v, .scalar text, rfl, hload, ⟨text, rfl, htext⟩, L.toInt_ofInt v⟩
  reread := by
    rintro node v ⟨text, rfl, htext⟩
    rw [htext]
    exact L.toInt_ofInt v

/-! ## Sequences -/

/-- A sequence whose elements stand for the elements of a list. -/
def Items (R : Node → α → Prop) (node : Node) (v : List α) : Prop :=
  ∃ items, node = .sequence items ∧ List.Forall₂ R items v

theorem Items.equal (h : Represents L c R) {node node' : Node} {v : List α}
    (hR : Items R node v) (heq : node.Equal node') : Items R node' v := by
  obtain ⟨items, rfl, hitems⟩ := hR
  cases heq with
  | sequence hys =>
    refine ⟨_, rfl, forall₂_left_of_forall₂ ?_ hitems hys⟩
    intro a a' b hab heq
    exact h.equal hab heq

/-- The loop that pushes back builds such a sequence. -/
theorem buildSequence (h : Represents L c R) (place : List Nat) (v : List α) :
    ∃ node, c.buildSequence L place v = some node ∧ Items R node v := by
  obtain ⟨items, hitems, hall⟩ := exists_mapM_of_forall (l := v.zipIdx)
    (f := fun e => c.child L place e.1 e.2) (R := fun e node => R node e.1)
    fun e _ => h.child place e.1 e.2
  refine ⟨.sequence items, by simp [LexicalCast.buildSequence, hitems], items, rfl, ?_⟩
  have hflip : List.Forall₂ (fun v node => R node v) (v.zipIdx.map Prod.fst) items :=
    List.forall₂_map_left_iff.mpr hall
  rw [List.zipIdx_map_fst] at hflip
  exact hflip.flip

/-- The loop over the indices of a sequence reads its elements, if each is read from its text. -/
theorem takeSequence_of_reread
    (h : ∀ {node v}, R node v → c.fromStr (L.emit node) = some v) {node : Node} {v : List α}
    (hR : Items R node v) : c.takeSequence L node = some v := by
  obtain ⟨items, rfl, hitems⟩ := hR
  have htexts : (List.range items.length).map (fun i => L.write items[i]?) = items.map L.emit := by
    refine List.ext_getElem (by simp) fun i hi hi' => ?_
    have hlt : i < items.length := by simpa using hi
    simp [Library.write, List.getElem?_eq_getElem hlt]
  have hread : (items.map L.emit).mapM c.fromStr = some v :=
    mapM_eq_some_of_forall₂ (List.forall₂_map_left_iff.mpr (hitems.imp fun _ _ => h))
  rw [← htexts, List.mapM_map] at hread
  exact hread

/-- The loop over the indices of a sequence reads its elements. -/
theorem takeSequence (h : Represents L c R) {node : Node} {v : List α} (hR : Items R node v) :
    c.takeSequence L node = some v :=
  takeSequence_of_reread h.reread hR

/-- The sequences, sets and maps of the standard library. -/
theorem vector (h : Represents L c R) : Represents L (LexicalCast.vector L c) (Items R) :=
  ofNode (Items.equal h) h.buildSequence h.takeSequence

theorem list (h : Represents L c R) : Represents L (LexicalCast.list L c) (Items R) :=
  ofNode (Items.equal h) h.buildSequence h.takeSequence

/-! ## Sets -/

/-- A sequence whose elements stand for the elements of a set, in some order. -/
def Elements (R : Node → α → Prop) (node : Node) (v : Finset α) : Prop :=
  ∃ items : List α, Items R node items ∧ (items : Multiset α) = v.val

theorem Elements.equal (h : Represents L c R) {node node' : Node} {v : Finset α}
    (hR : Elements R node v) (heq : node.Equal node') : Elements R node' v := by
  obtain ⟨items, hitems, hv⟩ := hR
  exact ⟨items, Items.equal h hitems heq, hv⟩

/-- Inserting the elements of a list one by one. -/
theorem foldl_insert [DecidableEq α] (items : List α) (v : Finset α) :
    items.foldl (fun v i => insert i v) v = items.toFinset ∪ v := by
  induction items generalizing v with
  | nil => simp
  | cons i items ih =>
    rw [List.foldl_cons, ih, List.toFinset_cons, Finset.union_insert, Finset.insert_union]

/-- Both kinds of sets have the same converters. -/
theorem elements [DecidableEq α] (h : Represents L c R) : Represents L (LexicalCast.ofNode L
    (fun place (v : Finset α) => c.buildSequence L place (L.traverse place v.val))
    fun node => (c.takeSequence L node).map fun items => items.foldl (fun v i => insert i v) ∅)
    (Elements R) := by
  refine ofNode (Elements.equal h) (fun place v => ?_) ?_
  · obtain ⟨node, hnode, hitems⟩ := h.buildSequence place (L.traverse place v.val)
    exact ⟨node, hnode, _, hitems, L.traverse_coe place v.val⟩
  · rintro node v ⟨items, hitems, hv⟩
    have hset : items.toFinset = v := by
      ext x
      rw [List.mem_toFinset, ← Finset.mem_val, ← hv, Multiset.mem_coe]
    simp [h.takeSequence hitems, foldl_insert, hset]

theorem set [DecidableEq α] (h : Represents L c R) :
    Represents L (LexicalCast.set L c) (Elements R) :=
  h.elements

theorem unorderedSet [DecidableEq α] (h : Represents L c R) :
    Represents L (LexicalCast.unorderedSet L c) (Elements R) :=
  h.elements

/-! ## Maps -/

/-- An entry that stands for a key with its value. -/
def Entry (R : Node → α → Prop) (e : Node × Node) (p : Σ _ : String, α) : Prop :=
  e.1 = .scalar p.1 ∧ R e.2 p.2

/-- A map whose entries stand for the entries of a map, in some order. -/
def Entries (R : Node → α → Prop) (node : Node) (v : Finmap fun _ : String => α) : Prop :=
  ∃ entries, ∃ items : List (Σ _ : String, α), node = .map entries ∧
    List.Forall₂ (Entry R) entries items ∧ (items : Multiset (Σ _ : String, α)) = v.entries

/-- Equal keys and equal values stand for the same. -/
theorem forall₂_entry (h : Represents L c R) {xs ys : List (Node × Node)}
    {items : List (Σ _ : String, α)} (hR : List.Forall₂ (Entry R) xs items)
    (hkeys : List.Forall₂ Node.Equal (xs.map Prod.fst) (ys.map Prod.fst))
    (hvalues : List.Forall₂ Node.Equal (xs.map Prod.snd) (ys.map Prod.snd)) :
    List.Forall₂ (Entry R) ys items := by
  rw [List.forall₂_map_left_iff, List.forall₂_map_right_iff] at hkeys hvalues
  have hboth := hkeys.mp (S := fun a b : Node × Node => a.1.Equal b.1 ∧ a.2.Equal b.2)
    (fun _ _ hkey hvalue => ⟨hkey, hvalue⟩) hvalues
  refine forall₂_left_of_forall₂ ?_ hR hboth
  rintro ⟨-, value⟩ ⟨key', value'⟩ p ⟨rfl, hvalue⟩ ⟨heqKey, heqValue⟩
  cases heqKey
  exact ⟨rfl, h.equal hvalue heqValue⟩

theorem Entries.equal (h : Represents L c R) {node node' : Node}
    {v : Finmap fun _ : String => α} (hR : Entries R node v) (heq : node.Equal node') :
    Entries R node' v := by
  obtain ⟨entries, items, rfl, hentries, hv⟩ := hR
  cases heq with
  | map hkeys hvalues hperm =>
    have hys := forall₂_entry h hentries hkeys hvalues
    obtain ⟨items', hitems', hperm'⟩ := List.perm_comp_forall₂ hperm.symm hys
    exact ⟨_, items', rfl, hitems', (Multiset.coe_eq_coe.mpr hperm').trans hv⟩

/-- The loop that assigns builds an entry for every key. -/
theorem buildMap (h : Represents L c R) (place : List Nat) {items : List (Σ _ : String, α)}
    (hitems : items.NodupKeys) :
    ∃ entries, c.buildMap L place items = some (.map entries) ∧
      List.Forall₂ (Entry R) entries items := by
  obtain ⟨pairs, hpairs, hall⟩ := exists_mapM_of_forall (l := items.zipIdx)
    (f := fun e => (c.child L place e.1.2 e.2).map fun node => (e.1.1, node))
    (R := fun e p => p.1 = e.1.1 ∧ R p.2 e.1.2) fun e _ => by
      obtain ⟨node, hnode, hR⟩ := h.child place e.1.2 e.2
      exact ⟨(e.1.1, node), by simp [hnode], rfl, hR⟩
  have hflip : List.Forall₂ (fun (e : Σ _ : String, α) (p : String × Node) =>
      p.1 = e.1 ∧ R p.2 e.2) (items.zipIdx.map Prod.fst) pairs :=
    List.forall₂_map_left_iff.mpr hall
  rw [List.zipIdx_map_fst] at hflip
  have hkeys : pairs.map Prod.fst = items.map Sigma.fst := by
    rw [← List.forall₂_eq_eq_eq, List.forall₂_map_left_iff, List.forall₂_map_right_iff]
    exact (hflip.imp fun _ _ hp => hp.1).flip
  refine ⟨pairs.map fun e => (.scalar e.1, e.2), ?_, ?_⟩
  · rw [LexicalCast.buildMap, hpairs, Option.bind_eq_bind, Option.bind_some,
      Node.foldl_put (hkeys ▸ hitems) (by simp), List.nil_append]
  · rw [List.forall₂_map_left_iff]
    refine (hflip.imp fun e p hp => ?_).flip
    exact ⟨congrArg Node.scalar hp.1, hp.2⟩

/-- Inserting entries under different keys, none of which is there. -/
theorem foldl_insertNew {items : List (Σ _ : String, α)} (hitems : items.NodupKeys)
    {v : Finmap fun _ : String => α} (hv : ∀ e ∈ items, e.1 ∉ v) :
    ((items.map fun e => (e.1, e.2)).foldl LexicalCast.insertNew v).entries =
      (items : Multiset (Σ _ : String, α)) + v.entries := by
  induction items generalizing v with
  | nil => simp
  | cons e items ih =>
    rw [List.nodupKeys_cons] at hitems
    have hnew := hv e List.mem_cons_self
    rw [List.map_cons, List.foldl_cons, LexicalCast.insertNew, if_neg hnew, ih hitems.2]
    · rw [Finmap.entries_insert_of_notMem hnew, ← Multiset.cons_coe, Multiset.add_cons,
        Multiset.cons_add]
    · intro x hx hmem
      rcases Finmap.mem_insert.mp hmem with heq | hmem
      · have hkey : x.1 = e.1 := heq
        exact hitems.1 (hkey ▸ List.mem_map_of_mem hx)
      · exact hv x (List.mem_cons_of_mem _ hx) hmem

/-- The loop over keys and values reads the entries. -/
theorem takeMap (h : Represents L c R) {node : Node} {v : Finmap fun _ : String => α}
    (hR : Entries R node v) : c.takeMap L node = some v := by
  obtain ⟨entries, items, rfl, hentries, hv⟩ := hR
  have hread : (entries.map fun e => (e.1.text, e.2)).mapM
      (fun e => (c.fromStr (L.emit e.2)).map fun v => (e.1, v)) =
        some (items.map fun e => (e.1, e.2)) := by
    refine mapM_eq_some_of_forall₂ ?_
    rw [List.forall₂_map_left_iff, List.forall₂_map_right_iff]
    refine hentries.imp fun e p hp => ?_
    obtain ⟨hkey, hvalue⟩ := hp
    simp [hkey, Node.text, h.reread hvalue]
  have hnodup : items.NodupKeys := by
    have := v.nodupKeys
    rwa [← hv] at this
  simp only [LexicalCast.takeMap, Node.pairs, Option.bind_eq_bind, Option.bind_some, hread]
  refine congrArg some (Finmap.ext ?_)
  rw [foldl_insertNew hnodup fun _ _ => Finmap.notMem_empty, hv]
  exact add_zero v.entries

/-- Both kinds of maps have the same converters. -/
theorem entries (h : Represents L c R) : Represents L (LexicalCast.ofNode L
    (fun place (v : Finmap fun _ : String => α) =>
      c.buildMap L place (L.traverse place v.entries)) (c.takeMap L)) (Entries R) := by
  refine ofNode (Entries.equal h) (fun place v => ?_) h.takeMap
  have hcoe := L.traverse_coe place v.entries
  have hnodup : (L.traverse place v.entries).NodupKeys := by
    have := v.nodupKeys
    rwa [← hcoe] at this
  obtain ⟨entries, hnode, hentries⟩ := h.buildMap place hnodup
  exact ⟨.map entries, hnode, entries, _, rfl, hentries, hcoe⟩

theorem map (h : Represents L c R) : Represents L (LexicalCast.map L c) (Entries R) :=
  h.entries

theorem unorderedMap (h : Represents L c R) :
    Represents L (LexicalCast.unorderedMap L c) (Entries R) :=
  h.entries

end Represents

end Xupeng.Config
