import Xupeng.Core.History
import Xupeng.Models.Config.Correctness.Loading
import Xupeng.Models.Config.Native.Lookup

/-!
# One variable for a name

Whoever looks up a name first decides the type and the default; all others get the same
variable, or null if they ask for another type. A document can set every variable that
has a name, under the name that the variable itself gives.
-/

namespace Xupeng.Config

open Yaml

theorem Datas.add_find_self {V : Type} (datas : Datas V) (name : List Char) (var : V)
    (h : Accepted name) : (datas.add name var h).find name = some var :=
  Function.update_self ..

theorem Datas.add_find_of_ne {V : Type} {datas : Datas V} {name other : List Char} {var : V}
    {h : Accepted name} (hne : other ≠ name) :
    (datas.add name var h).find other = datas.find other :=
  Function.update_of_ne hne ..

namespace Registry

variable {T : Type} {Val : T → Type}

/-! ## What a call leaves as it is -/

/-- All variables are where they were, with their names and types. -/
structure Extends (s t : Registry Val) : Prop where
  find : ∀ name p, s.datas.find name = some p → t.datas.find name = some p
  vars : ∀ (p : Nat) var, s.vars[p]? = some var →
    ∃ var', t.vars[p]? = some var' ∧ var'.m_name = var.m_name ∧ var'.type = var.type

namespace Extends

variable {s t u : Registry Val}

theorem refl (s : Registry Val) : Extends s s :=
  ⟨fun _ _ => id, fun _ var h => ⟨var, h, rfl, rfl⟩⟩

theorem trans (h : Extends s t) (h' : Extends t u) : Extends s u where
  find name p hp := h'.find name p (h.find name p hp)
  vars p var hvar := by
    obtain ⟨var', hvar', hname, htype⟩ := h.vars p var hvar
    obtain ⟨var'', hvar'', hname', htype'⟩ := h'.vars p var' hvar'
    exact ⟨var'', hvar'', hname'.trans hname, htype'.trans htype⟩

end Extends

variable {s t : Registry Val}

/-- A value can change, the names and types stay. -/
theorem extends_assign (p : Nat) (f : (type : T) → Val type → Val type) (s : Registry Val) :
    Extends s (s.assign p f) where
  find _ _ := id
  vars q var hvar := by
    dsimp only [assign]
    rw [List.getElem?_modify, hvar]
    split
    · exact ⟨_, rfl, rfl, rfl⟩
    · exact ⟨_, rfl, rfl, rfl⟩

theorem load_frame (emit : Node → String)
    (fromString : String → (type : T) → Val type → Val type) (root : Node) (s : Registry Val) :
    Extends s (s.load emit fromString root) ∧
      (s.load emit fromString root).datas = s.datas := by
  unfold load
  generalize (loadFromYaml emit (fun _ p => p) root s.datas).calls = calls
  induction calls generalizing s with
  | nil => exact ⟨.refl s, rfl⟩
  | cons call calls ih =>
    rw [List.foldl_cons]
    split
    · rename_i p hp
      obtain ⟨hext, hdatas⟩ := ih (s.assign p (fromString call.2))
      exact ⟨(extends_assign p _ s).trans hext, hdatas⟩
    · exact ih s

/-- A new variable is behind the old ones. -/
theorem extends_register {name : List Char} (hfind : s.datas.find name = none)
    (h : Accepted name) {type : T} (default : Val type) :
    Extends s (s.register name h type default) where
  find other p hp := by
    have hne : other ≠ name := by
      rintro rfl
      cases hfind.symm.trans hp
    exact (Datas.add_find_of_ne (h := h) hne).trans hp
  vars p var' hvar := by
    have hlt := (List.getElem?_eq_some_iff.mp hvar).1
    exact ⟨var', (List.getElem?_append_left hlt).trans hvar, rfl, rfl⟩

/-- A pointer that a `Lookup` has returned. -/
structure Handed (T : Type) where
  name : List Char
  type : T
  pointer : Nat

/-- The pointer is that of the name, and of the type. -/
def Holds (s : Registry Val) (a : Handed T) : Prop :=
  s.datas.find a.name = some a.pointer ∧ ∃ var, s.vars[a.pointer]? = some var ∧ var.type = a.type

/-- A pointer that has been handed out stays good. -/
theorem Extends.holds (h : Extends s t) {a : Handed T} (ha : s.Holds a) : t.Holds a := by
  obtain ⟨hfind, var, hvar, htype⟩ := ha
  obtain ⟨var', hvar', -, htype'⟩ := h.vars a.pointer var hvar
  exact ⟨h.find a.name a.pointer hfind, var', hvar', htype'.trans htype⟩

/-- Every variable has the name under which it is registered. -/
def Named (s : Registry Val) : Prop :=
  ∀ name p, s.datas.find name = some p → ∃ var, s.vars[p]? = some var ∧ var.m_name = name

/-- The names of the variables stay. -/
theorem Extends.named (h : Extends s t) (hs : s.Named) (hdatas : t.datas = s.datas) : t.Named := by
  intro name p hp
  rw [hdatas] at hp
  obtain ⟨var, hvar, hname⟩ := hs name p hp
  obtain ⟨var', hvar', hname', -⟩ := h.vars p var hvar
  exact ⟨var', hvar', hname'.trans hname⟩

/-- The new variable has the name that it is registered with. -/
theorem named_register (hs : s.Named) {name : List Char} (hfind : s.datas.find name = none)
    (h : Accepted name) {type : T} (default : Val type) :
    (s.register name h type default).Named := by
  intro other p hp
  by_cases hname : other = name
  · subst hname
    cases (Datas.add_find_self _ _ _ h).symm.trans hp
    exact ⟨_, List.getElem?_concat_length, lower_of_accepted h⟩
  · obtain ⟨var, hvar, hvarName⟩ :=
      hs other p ((Datas.add_find_of_ne (h := h) hname).symm.trans hp)
    obtain ⟨var', hvar', hname', -⟩ := (extends_register hfind h default).vars p var hvar
    exact ⟨var', hvar', hname'.trans hvarName⟩

variable [DecidableEq T]

/-- The cast succeeds for the type of the variable only. -/
theorem cast_eq_pointer {type : T} {p q : Nat} :
    s.cast type p = .pointer q ↔ p = q ∧ ∃ var, s.vars[p]? = some var ∧ var.type = type := by
  unfold cast
  cases s.vars[p]? with
  | none => simp
  | some var => by_cases htype : var.type = type <;> simp [htype]

/-- A pointer that is found is that of the name. -/
theorem holds_of_find {name : List Char} {type : T} {p : Nat}
    (h : s.find name type = .pointer p) : s.Holds ⟨name, type, p⟩ := by
  unfold find at h
  split at h
  · cases h
  · rename_i q hq
    obtain ⟨rfl, hvar⟩ := cast_eq_pointer.mp h
    exact ⟨hq, hvar⟩

/-- The three ways of a `Lookup` with a default. -/
theorem lookup_cases (name : List Char) (type : T) (default : Val type) (s : Registry Val) :
    (∃ p, s.datas.find name = some p ∧ s.lookup name type default = (s.cast type p, s)) ∨
      s.datas.find name = none ∧
        ((∃ h : Accepted name, s.lookup name type default =
          (.pointer s.vars.length, s.register name h type default)) ∨
          s.lookup name type default = (.throws, s)) := by
  unfold lookup
  cases hfind : s.datas.find name with
  | some p => exact Or.inl ⟨p, rfl, rfl⟩
  | none =>
    refine Or.inr ⟨rfl, ?_⟩
    by_cases h : Accepted name
    · exact Or.inl ⟨h, dif_pos h⟩
    · exact Or.inr (dif_neg h)

/-! ## What has been handed out -/

/-- The pointers that have been returned, after a call. -/
def hand (s : Registry Val) (c : Call Val) (_ : Registry Val) (handed : List (Handed T)) :
    List (Handed T) :=
  match s.answer c with
  | some (name, type, .pointer p) => handed ++ [⟨name, type, p⟩]
  | _ => handed

variable {emit : Node → String} {fromString : String → (type : T) → Val type → Val type}

/-- What a call does: the variables stay, and what it returns is the variable of the name. -/
theorem step_frame (hs : s.Named) {c : Call Val} (hstep : s.step emit fromString c = some t) :
    Extends s t ∧ t.Named ∧
      ∀ name type p, s.answer c = some (name, type, .pointer p) → t.Holds ⟨name, type, p⟩ := by
  cases c with
  | lookup name type default =>
    cases hstep
    rcases lookup_cases name type default s with
      ⟨p, hp, heq⟩ | ⟨hnone, ⟨h, heq⟩ | heq⟩
    · rw [heq]
      refine ⟨.refl s, hs, fun name' type' q hq => ?_⟩
      rw [answer, heq] at hq
      obtain ⟨rfl, rfl, hcast⟩ := by simpa using hq
      obtain ⟨rfl, hvar⟩ := cast_eq_pointer.mp hcast
      exact ⟨hp, hvar⟩
    · rw [heq]
      refine ⟨extends_register hnone h default, named_register hs hnone h default, ?_⟩
      intro name' type' q hq
      rw [answer, heq] at hq
      obtain ⟨rfl, rfl, rfl⟩ := by simpa using hq
      exact ⟨Datas.add_find_self _ _ _ h, _, List.getElem?_concat_length, rfl⟩
    · rw [heq]
      refine ⟨.refl s, hs, fun name' type' q hq => ?_⟩
      rw [answer, heq] at hq
      cases hq
  | find name type =>
    cases hstep
    refine ⟨.refl s, hs, fun name' type' q hq => ?_⟩
    obtain ⟨rfl, rfl, hfind⟩ := by simpa [answer] using hq
    exact holds_of_find hfind
  | setValue p value =>
    cases hstep
    have hext := extends_assign p (fun type _ => value type) s
    exact ⟨hext, hext.named hs rfl, fun _ _ _ hq => by cases hq⟩
  | load root =>
    cases hstep
    obtain ⟨hext, hdatas⟩ := load_frame emit fromString root s
    exact ⟨hext, hext.named hs hdatas, fun _ _ _ hq => by cases hq⟩

/-! ## The invariant -/

/-- Every pointer that has been returned is still the one for its name and type. -/
structure Kept (x : Registry Val × List (Handed T)) : Prop where
  named : x.1.Named
  handed : ∀ a ∈ x.2, x.1.Holds a

/-- Every call keeps what has been handed out. -/
theorem Kept.step {handed : List (Handed T)} (h : Kept (s, handed)) {c : Call Val}
    (hstep : s.step emit fromString c = some t) : Kept (t, hand s c t handed) := by
  obtain ⟨hext, hnamed, hnew⟩ := step_frame h.named hstep
  have hold : ∀ a ∈ handed, t.Holds a := fun a ha => hext.holds (h.handed a ha)
  refine ⟨hnamed, ?_⟩
  dsimp only [hand]
  split
  · rename_i name type p hanswer
    exact List.forall_mem_append.mpr
      ⟨hold, List.forall_mem_singleton.mpr (hnew name type p hanswer)⟩
  · exact hold

/-- What the users of the registry can rely on. -/
structure Stable (emit : Node → String) (x : Registry Val × List (Handed T)) : Prop where
  /-- One variable for a name, and one name for a variable. -/
  same : ∀ a ∈ x.2, ∀ b ∈ x.2, a.name = b.name ↔ a.pointer = b.pointer
  /-- A variable has one type. -/
  typed : ∀ a ∈ x.2, ∀ b ∈ x.2, a.pointer = b.pointer → a.type = b.type
  /-- `getName` returns the name that it was looked up with. -/
  named : ∀ a ∈ x.2, ∃ var, x.1.vars[a.pointer]? = some var ∧ var.m_name = a.name ∧
    var.type = a.type
  /-- It is found again, by either `Lookup`. -/
  found : ∀ a ∈ x.2, x.1.find a.name a.type = .pointer a.pointer ∧
    ∀ default, x.1.lookup a.name a.type default = (.pointer a.pointer, x.1)
  /-- A document can set it under its name. -/
  reached : ∀ a ∈ x.2, a.name ≠ [] → ∀ text,
    (loadFromYaml emit (fun _ p => p)
      (.map [(.scalar (.ofList a.name), .scalar text)]) x.1.datas).calls = [(a.name, text)]

/-- A document with one key sets the variable of that name. -/
theorem calls_single {V : Type} {datas : Datas V} (g : String → V → V) {name : List Char} {var : V}
    (hfind : datas.find name = some var) (hname : name ≠ []) (text : String) :
    (loadFromYaml emit g (.map [(.scalar (.ofList name), .scalar text)]) datas).calls =
      [(name, text)] := by
  have haccepted : Accepted name := datas.accepted name (Option.isSome_of_eq_some hfind)
  have hlist : listAllMember [] (.map [(.scalar (.ofList name), .scalar text)]) =
      [([], .map [(.scalar (.ofList name), .scalar text)]), (name, .scalar text)] := by
    have hnil : Accepted [] := fun c hc => by cases hc
    simp only [listAllMember, listEntries, extend, Node.text, String.toList_ofList, if_true,
      if_pos hnil, if_pos haccepted, List.append_nil]
  rw [loadFromYaml, (foldl_visit emit g _ _).1, hlist]
  simp [called, lower_of_accepted haccepted, hfind, hname, given]

/-- That is all that the users rely on. -/
theorem Kept.stable {x : Registry Val × List (Handed T)} (h : Kept x) : Stable emit x where
  same a ha b hb := by
    obtain ⟨hfind, -⟩ := h.handed a ha
    obtain ⟨hfind', -⟩ := h.handed b hb
    constructor
    · intro hname
      rw [hname] at hfind
      exact Option.some.inj (hfind.symm.trans hfind')
    · intro hp
      obtain ⟨var, hvar, hname⟩ := h.named a.name a.pointer hfind
      obtain ⟨var', hvar', hname'⟩ := h.named b.name b.pointer hfind'
      rw [hp] at hvar
      cases hvar.symm.trans hvar'
      exact hname.symm.trans hname'
  typed a ha b hb hp := by
    obtain ⟨-, var, hvar, htype⟩ := h.handed a ha
    obtain ⟨-, var', hvar', htype'⟩ := h.handed b hb
    rw [hp] at hvar
    cases hvar.symm.trans hvar'
    exact htype.symm.trans htype'
  named a ha := by
    obtain ⟨hfind, var, hvar, htype⟩ := h.handed a ha
    obtain ⟨var', hvar', hname⟩ := h.named a.name a.pointer hfind
    cases hvar.symm.trans hvar'
    exact ⟨var, hvar, hname, htype⟩
  found a ha := by
    obtain ⟨hfind, hvar⟩ := h.handed a ha
    have hcast : x.1.cast a.type a.pointer = .pointer a.pointer := cast_eq_pointer.mpr ⟨rfl, hvar⟩
    refine ⟨?_, fun default => ?_⟩
    · rw [find, hfind]
      exact hcast
    · rw [lookup, hfind, ← hcast]
  reached a ha hne text := calls_single _ (h.handed a ha).1 hne text

end Registry

/-- However the program looks up, sets and loads variables: all that ask for a name get the same
variable or none, a variable keeps its name and its type and is found again, and a document can
set it under its own name. -/
theorem variables_stable {T : Type} [DecidableEq T] {Val : T → Type} (emit : Node → String)
    (fromString : String → (type : T) → Val type → Val type)
    (calls : List (Registry.Call Val)) :
    Along (recorded (Registry.step emit fromString) Registry.hand) (Registry.Stable emit)
      ({}, []) calls := by
  apply along_of_invariant (I := Registry.Kept) ?_ ?_ ?_ calls
  · intro x c y hx hr
    exact of_recorded hr fun t ht => hx.step ht
  · intro x hx
    exact hx.stable
  · constructor
    · intro name p hp
      cases hp
    · intro a ha
      cases ha

end Xupeng.Config
