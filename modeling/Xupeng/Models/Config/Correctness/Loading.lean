import Xupeng.Models.Config.Interpretation.Calls

/-!
# Loading reaches the named variables

For a document whose keys are not empty and stay within the alphabet, the names that
`ListAllMember` makes are the keys joined by dots. It lists every place, and
`LoadFromYaml` calls `fromString` on the variables with one of these names and on no
others.
-/

namespace Xupeng.Config

open Yaml

variable {V : Type}

/-- The keys joined by dots. -/
def dotted (keys : List (List Char)) : List Char := ['.'].intercalate keys

/-- No key on the way to a place is empty or has a character outside of the alphabet. -/
def PlainKeys (root : Node) : Prop :=
  ∀ x : Place, x.In root → ∀ key ∈ x.keys, key ≠ [] ∧ Accepted key

/-- The call for a place other than the root, if a variable has its dotted path for a name. -/
def callNamed (emit : Node → String) (datas : Datas V) (x : Place) :
    Option (List Char × String) :=
  if x.position ≠ [] ∧ (datas.find (dotted x.keys)).isSome then
    some (dotted x.keys, given emit x.node)
  else none

/-! ## Dotted paths -/

/-- Behind a name that is not empty each key comes with its dot. -/
theorem foldl_extend {pre : List Char} (hpre : pre ≠ []) (keys : List (List Char)) :
    keys.foldl extend pre = pre ++ (keys.map ('.' :: ·)).flatten := by
  induction keys generalizing pre with
  | nil => simp
  | cons key keys ih =>
    have hextend : extend pre key = pre ++ '.' :: key := if_neg hpre
    rw [List.foldl_cons, hextend, ih (by simp), List.map_cons, List.flatten_cons,
      List.append_assoc]

theorem dotted_cons (key : List Char) (keys : List (List Char)) :
    dotted (key :: keys) = key ++ (keys.map ('.' :: ·)).flatten := by
  induction keys generalizing key with
  | nil => simp [dotted, List.intercalate]
  | cons key' keys ih =>
    have hrest := ih key'
    simp only [dotted, List.intercalate] at hrest ⊢
    rw [List.intersperse_cons_cons, List.flatten_cons, List.flatten_cons, hrest]
    simp

/-- Where no key is empty the name of a place is its dotted path. -/
theorem name_eq_dotted {x : Place} (h : ∀ key ∈ x.keys, key ≠ []) :
    x.name [] = dotted x.keys := by
  unfold Place.name
  cases hkeys : x.keys with
  | nil => rfl
  | cons key keys =>
    rw [hkeys] at h
    rw [List.foldl_cons, dotted_cons]
    exact foldl_extend (h key List.mem_cons_self) keys

/-- Names made of accepted keys are accepted. -/
theorem accepted_dotted {keys : List (List Char)} (h : ∀ key ∈ keys, Accepted key) :
    Accepted (dotted keys) := by
  cases keys with
  | nil => exact nofun
  | cons key keys =>
    intro c hc
    rw [dotted_cons, List.mem_append] at hc
    rcases hc with hc | hc
    · exact h key List.mem_cons_self c hc
    · obtain ⟨l, hl, hc⟩ := List.mem_flatten.mp hc
      obtain ⟨key', hkey', rfl⟩ := List.mem_map.mp hl
      rcases List.mem_cons.mp hc with rfl | hc
      · decide
      · exact h key' (List.mem_cons_of_mem key hkey') c hc

/-- The alphabet has no capital letter. -/
theorem toLower_of_mem_alphabet {c : Char} (h : c ∈ alphabet) : c.toLower = c := by
  have hall : alphabet.all (fun c => c.toLower = c) = true := by decide
  exact of_decide_eq_true (List.all_eq_true.mp hall c h)

/-- An accepted name has no capital letters. -/
theorem lower_of_accepted {name : List Char} (h : Accepted name) : lower name = name :=
  (List.map_congr_left fun c hc => toLower_of_mem_alphabet (h c hc)).trans (List.map_id name)

/-- A place has as many keys as indices. -/
theorem length_keys {root : Node} {x : Place} (h : x.In root) :
    x.keys.length = x.position.length := by
  obtain ⟨position, keys, node⟩ := x
  simp only [Place.In] at h
  induction position generalizing root keys with
  | nil =>
    cases root <;> cases h <;> rfl
  | cons i position ih =>
    cases root with
    | map entries =>
      simp only [descend, Option.bind_eq_some_iff, Option.map_eq_some_iff] at h
      obtain ⟨e, -, found, hfound, heq⟩ := h
      cases heq
      exact congrArg (· + 1) (ih found.1 hfound)
    | _ => cases h

/-! ## The document -/

section

variable {root : Node} (h : PlainKeys root)
include h

/-- The name of a place is made of its keys. -/
theorem PlainKeys.accepted {x : Place} (hx : x.In root) :
    x.name [] = dotted x.keys ∧ Accepted (dotted x.keys) :=
  ⟨name_eq_dotted fun key hkey => (h x hx key hkey).1,
    accepted_dotted fun key hkey => (h x hx key hkey).2⟩

/-- Only the root has the empty path. -/
theorem PlainKeys.dotted_eq_nil_iff {x : Place} (hx : x.In root) :
    dotted x.keys = [] ↔ x.position = [] := by
  rw [← List.length_eq_zero_iff (l := x.position), ← length_keys hx, List.length_eq_zero_iff]
  cases hkeys : x.keys with
  | nil => exact iff_of_true rfl rfl
  | cons key keys =>
    have hne : key ≠ [] := (h x hx key (by rw [hkeys]; exact List.mem_cons_self)).1
    rw [dotted_cons]
    simp [hne]

/-- No place is left out. -/
theorem PlainKeys.listAllMember_eq :
    listAllMember [] root = (places root).map fun x => (dotted x.keys, x.node) := by
  rw [Config.listAllMember_eq, List.filter_eq_self.mpr]
  · refine List.map_congr_left fun x hx => ?_
    rw [(h.accepted ((mem_places root).mp hx)).1]
  · intro m hm
    obtain ⟨x, hx, rfl⟩ := List.mem_map.mp hm
    obtain ⟨hname, haccepted⟩ := h.accepted ((mem_places root).mp hx)
    exact decide_eq_true (hname ▸ haccepted)

/-- The variable with that name is called. -/
theorem PlainKeys.callAt_eq (emit : Node → String) (datas : Datas V) {x : Place}
    (hx : x.In root) : callAt emit datas x = callNamed emit datas x := by
  obtain ⟨hname, haccepted⟩ := h.accepted hx
  have hnil := not_congr (h.dotted_eq_nil_iff hx)
  simp only [callAt, called, callNamed, hname, lower_of_accepted haccepted, if_pos haccepted,
    ne_eq, hnil]

end

/-- For every document with plain keys, `ListAllMember` lists each place once under its dotted
path, a node before those below it and the entries of a map in their order. `LoadFromYaml`
calls `fromString` in this order on the variables that have the path of a place other than
the root for a name, with the text of the node there, and changes nothing else. -/
theorem load_reaches_named (emit : Node → String) (fromString : String → V → V) (root : Node)
    (datas : Datas V) (hkeys : PlainKeys root) :
    ∃ l : List Place, (∀ x, x ∈ l ↔ x.In root) ∧ Ordered l ∧
      listAllMember [] root = l.map (fun x => (dotted x.keys, x.node)) ∧
      (loadFromYaml emit fromString root datas).calls = l.filterMap (callNamed emit datas) ∧
      (∀ name, (loadFromYaml emit fromString root datas).datas.find name =
        (datas.find name).map
          (applied fromString (loadFromYaml emit fromString root datas).calls name)) ∧
      ∀ name, (∀ x ∈ l, x.position ≠ [] → dotted x.keys ≠ name) →
        (loadFromYaml emit fromString root datas).datas.find name = datas.find name := by
  have hcalls : (loadFromYaml emit fromString root datas).calls =
      (places root).filterMap (callNamed emit datas) := by
    rw [calls_eq]
    exact List.filterMap_congr fun x hx => hkeys.callAt_eq emit datas ((mem_places root).mp hx)
  refine ⟨places root, fun x => mem_places root, places_ordered root, hkeys.listAllMember_eq,
    hcalls, find_eq emit fromString root datas, fun name hname => ?_⟩
  have hnone : (loadFromYaml emit fromString root datas).calls.filter (·.1 = name) = [] := by
    rw [hcalls, List.filter_eq_nil_iff]
    intro call hcall heq
    obtain ⟨x, hx, hsome⟩ := List.mem_filterMap.mp hcall
    unfold callNamed at hsome
    split at hsome
    · rename_i hcond
      cases hsome
      exact hname x hx hcond.1 (of_decide_eq_true heq)
    · cases hsome
  have hid : applied fromString (loadFromYaml emit fromString root datas).calls name = id := by
    funext var
    rw [applied, hnone]
    rfl
  rw [find_eq, hid, Option.map_id, id]

/-- The variables `a` and `a.b`, of which each keeps the texts that it is given. -/
def twoVariables : Datas (List String) where
  find name := if name = ['a'] ∨ name = ['a', '.', 'b'] then some [] else none
  accepted name h := by
    have hname : name = ['a'] ∨ name = ['a', '.', 'b'] := by
      by_contra hne
      rw [if_neg hne] at h
      cases h
    rcases hname with rfl | rfl <;> decide

/-- The document `{a: {b: 10, c: 2}}`. -/
def nested : Node :=
  .map [(.scalar "a", .map [(.scalar "b", .scalar "10"), (.scalar "c", .scalar "2")])]

/-- A document with a map in a map, and two variables. -/
theorem load_reaches_named_nested :
    ∃ l : List Place, (∀ x, x ∈ l ↔ x.In nested) ∧
      (loadFromYaml (fun _ => "") (fun text texts => texts ++ [text]) nested twoVariables).calls =
        l.filterMap (callNamed (fun _ => "") twoVariables) := by
  have hkeys : PlainKeys nested := by
    have hall : ∀ x ∈ places nested, ∀ key ∈ x.keys, key ≠ [] ∧ Accepted key := by decide
    exact fun x hx => hall x ((mem_places nested).mpr hx)
  obtain ⟨l, hmem, -, -, hcalls, -⟩ := load_reaches_named (fun _ => "")
    (fun text texts => texts ++ [text]) nested twoVariables hkeys
  exact ⟨l, hmem, hcalls⟩

/-- The variable `a` is given the emitted map before `a.b` is given its scalar. -/
example : (loadFromYaml (fun _ => "map") (fun text texts => texts ++ [text]) nested
    twoVariables).calls = [(['a'], "map"), (['a', '.', 'b'], "10")] := by
  decide

end Xupeng.Config
