import Xupeng.Models.Config.Correctness.Registry
import Xupeng.Models.Config.Native.Lookups

/-!
# Lookups that overlap

Two threads that look up a name for the first time can both find nothing, and each makes
a variable then. The second one takes the place of the first, whose owner keeps a
variable that no document and no other part of the program reaches any more.
-/

namespace Xupeng.Config

namespace Lookups

open Registry (Handed)

variable {T : Type} {Val : T → Type}

/-- All that have looked up a name have the same variable. -/
def Unique (x : Lookups Val × List (Handed T)) : Prop :=
  ∀ a ∈ x.2, ∀ b ∈ x.2, a.name = b.name → a.pointer = b.pointer

/-- A variable is entered under a name that still has none. -/
def Fresh (x : Lookups Val × List (Handed T)) (a : Step Val) : Prop :=
  ∀ made ∈ x.1.makes a, x.1.registry.datas.find made.1 = none

instance (x : Lookups Val × List (Handed T)) (a : Step Val) : Decidable (Fresh x a) :=
  inferInstanceAs (Decidable (∀ made ∈ x.1.makes a, _))

variable {s t : Lookups Val} {a : Step Val} {handed : List (Handed T)}

/-! ## What is known of the pointers -/

/-- While no name has two variables: what has been returned is registered, and what is registered
has been returned. -/
structure Known (x : Lookups Val × List (Handed T)) : Prop where
  handed : ∀ a ∈ x.2, x.1.registry.Holds a
  registered : ∀ name p, x.1.registry.datas.find name = some p →
    ∃ a ∈ x.2, a.name = name ∧ a.pointer = p

/-- A pointer that has been returned once more. -/
theorem Known.append (h : Known (s, handed)) {new : Handed T} (hnew : s.registry.Holds new) :
    Known (s, handed ++ [new]) where
  handed := List.forall_mem_append.mpr ⟨h.handed, List.forall_mem_singleton.mpr hnew⟩
  registered name p hp := by
    obtain ⟨a, ha, haname⟩ := h.registered name p hp
    exact ⟨a, List.mem_append_left _ ha, haname⟩

/-- What is known leaves one variable for a name. -/
theorem Known.unique {x : Lookups Val × List (Handed T)} (h : Known x) : Unique x := by
  intro a ha b hb hname
  have hfind := (h.handed a ha).1
  rw [hname] at hfind
  exact Option.some.inj (hfind.symm.trans (h.handed b hb).1)

/-- A variable is entered under a name without one. -/
theorem Known.enters (h : Known (s, handed)) {name : List Char} {accepted : Accepted name}
    {type : T} {default : Val type} (hfresh : s.registry.datas.find name = none)
    (hregistry : t.registry = s.registry.register name accepted type default) :
    Known (t, handed ++ [⟨name, type, s.registry.vars.length⟩]) where
  handed := by
    dsimp only
    rw [hregistry]
    refine List.forall_mem_append.mpr ⟨fun a ha => ?_, List.forall_mem_singleton.mpr ⟨?_, ?_⟩⟩
    · exact (Registry.extends_register hfresh accepted default).holds (h.handed a ha)
    · exact Datas.add_find_self _ _ _ accepted
    · exact ⟨_, List.getElem?_concat_length, rfl⟩
  registered other p hp := by
    dsimp only at hp
    rw [hregistry] at hp
    by_cases hname : other = name
    · subst hname
      cases (Datas.add_find_self _ _ _ accepted).symm.trans hp
      exact ⟨_, List.mem_append_right _ (List.mem_singleton_self _), rfl, rfl⟩
    · obtain ⟨a, ha, haname⟩ :=
        h.registered other p ((Datas.add_find_of_ne (h := accepted) hname).symm.trans hp)
      exact ⟨a, List.mem_append_left _ ha, haname⟩

/-- A variable that takes the place of another one is the second of its name. -/
theorem Known.not_unique (h : Known (s, handed)) {name : List Char} {type : T}
    (hfresh : s.registry.datas.find name ≠ none) :
    ¬ Unique (t, handed ++ [⟨name, type, s.registry.vars.length⟩]) := by
  intro hunique
  obtain ⟨p, hp⟩ := Option.ne_none_iff_exists'.mp hfresh
  obtain ⟨a, ha, haname, -⟩ := h.registered name p hp
  obtain ⟨-, var, hvar, -⟩ := h.handed a ha
  have hlt := (List.getElem?_eq_some_iff.mp hvar).1
  have hsame : a.pointer = s.registry.vars.length :=
    hunique a (List.mem_append_left _ ha) _ (List.mem_append_right _ (List.mem_singleton_self _))
      haname
  dsimp only at hlt
  omega

/-- The registry alone decides. -/
theorem Known.congr (h : Known (s, handed)) (hregistry : t.registry = s.registry) :
    Known (t, handed) := by
  refine ⟨?_, ?_⟩
  · dsimp only
    rw [hregistry]
    exact h.handed
  · dsimp only
    rw [hregistry]
    exact h.registered

/-! ## What a step does -/

variable [DecidableEq T]

/-- The pointers that have been returned, after a step. -/
def hand (s : Lookups Val) (a : Step Val) (_ : Lookups Val) (handed : List (Handed T)) :
    List (Handed T) :=
  match s.looks a, s.makes a with
  | some (name, type), _ =>
    match s.registry.find name type with
    | .pointer p => handed ++ [⟨name, type, p⟩]
    | _ => handed
  | none, some (name, type) => handed ++ [⟨name, type, s.registry.vars.length⟩]
  | none, none => handed

/-- What a step does to the registry, and which pointer it returns. -/
inductive Does (s t : Lookups Val) (a : Step Val) (handed : List (Handed T)) : Prop
  | quiet (registry : t.registry = s.registry) (makes : s.makes a = none)
      (hand : hand s a t handed = handed)
  | finds (new : Handed T) (registry : t.registry = s.registry) (makes : s.makes a = none)
      (found : s.registry.Holds new)
      (hand : hand s a t handed = handed ++ [new])
  | enters (name : List Char) (h : Accepted name) (type : T) (default : Val type)
      (registry : t.registry = s.registry.register name h type default)
      (makes : s.makes a = some (name, type))
      (hand : hand s a t handed = handed ++ [⟨name, type, s.registry.vars.length⟩])

/-- A step that looks for a name. -/
theorem does_look {name : List Char} {type : T} (hlooks : s.looks a = some (name, type))
    (hmakes : s.makes a = none) (hregistry : t.registry = s.registry) : Does s t a handed := by
  cases hfind : s.registry.find name type with
  | pointer p =>
    refine .finds ⟨name, type, p⟩ hregistry hmakes (Registry.holds_of_find hfind) ?_
    simp only [hand, hlooks, hfind]
  | null | throws =>
    refine .quiet hregistry hmakes ?_
    simp only [hand, hlooks, hfind]

theorem does (hstep : s.step a = some t) : Does s t a handed := by
  cases a with
  | enter i name type default =>
    simp only [step] at hstep
    split at hstep
    · obtain ⟨r, -, rfl⟩ := Option.map_eq_some_iff.mp hstep
      exact .quiet rfl rfl rfl
    · cases hstep
  | look i =>
    simp only [step] at hstep
    split at hstep
    · rename_i name type default hpc
      have hlooks : s.looks (.look i) = some (name, type) := by simp only [looks, hpc]
      apply does_look hlooks rfl
      split at hstep
      · cases hstep
        rfl
      · split at hstep
        · cases hstep
          rfl
        · cases hstep
          rfl
    · cases hstep
  | insert i =>
    simp only [step] at hstep
    split at hstep
    · rename_i name h type default hpc
      cases hstep
      have hmakes : s.makes (.insert i) = some (name, type) := by simp only [makes, hpc]
      refine .enters name h type default rfl hmakes ?_
      simp only [hand, hmakes, looks]
    · cases hstep
  | leave i =>
    simp only [step] at hstep
    split at hstep
    · cases hstep
      exact .quiet rfl rfl rfl
    · cases hstep

/-- After a step one variable is left for each name exactly if the step was fresh. -/
theorem Known.step (h : Known (s, handed)) (hstep : s.step a = some t) :
    Fresh (s, handed) a ∧ Known (t, hand s a t handed) ∨
      ¬ Fresh (s, handed) a ∧ ¬ Unique (t, hand s a t handed) := by
  have hquiet (hmakes : s.makes a = none) : Fresh (s, handed) a := by
    intro made hmade
    cases hmakes.symm.trans hmade
  have hdoes : Does s t a handed := does hstep
  cases hdoes with
  | quiet registry makes heq =>
    rw [heq]
    exact Or.inl ⟨hquiet makes, h.congr registry⟩
  | finds new registry makes found heq =>
    rw [heq]
    exact Or.inl ⟨hquiet makes, (h.append found).congr registry⟩
  | enters name accepted type default registry makes heq =>
    rw [heq]
    have hiff : Fresh (s, handed) a ↔ s.registry.datas.find name = none := by
      constructor
      · intro hfresh
        exact hfresh (name, type) makes
      · intro hnone made hmade
        cases makes.symm.trans hmade
        exact hnone
    by_cases hnone : s.registry.datas.find name = none
    · exact Or.inl ⟨hiff.mpr hnone, h.enters hnone registry⟩
    · exact Or.inr ⟨fun hfresh => hnone (hiff.mp hfresh), h.not_unique hnone⟩

end Lookups

/-- In every run of any number of threads in `Lookup`, all that look up a name have the same
variable exactly if no thread enters a variable under a name that another one has entered since
it looked. -/
theorem lookups_unique_iff {T : Type} [DecidableEq T] {Val : T → Type}
    (as : List (Lookups.Step Val))
    (hr : (run (recorded Lookups.step Lookups.hand) ({}, []) as).isSome) :
    Along (recorded Lookups.step Lookups.hand) Lookups.Unique ({}, []) as ↔
      Guarded (recorded Lookups.step Lookups.hand) Lookups.Fresh ({}, []) as := by
  apply along_iff_guarded (I := Lookups.Known) ?_ ?_ ?_ ?_ hr
  · intro x a y hx _
    refine fun hy hs => ?_
    revert hy
    refine of_recorded hs fun t ht hy => ?_
    rcases hx.step ht with ⟨-, hknown⟩ | ⟨-, hnot⟩
    · exact hknown
    · exact absurd hy hnot
  · intro x a y hx _ hs
    refine of_recorded hs fun t ht => ?_
    rcases hx.step ht with ⟨hfresh, hknown⟩ | ⟨hfresh, hnot⟩
    · exact iff_of_true hknown.unique hfresh
    · exact iff_of_false hnot hfresh
  · constructor
    · intro a ha
      cases ha
    · intro name p hp
      cases hp
  · intro a ha
    cases ha

/-- Two threads look up a name for the first time. -/
def overlappingLookups : List (Lookups.Step fun _ : Unit => Nat) :=
  [.enter 0 ['a'] () 1, .enter 1 ['a'] () 2, .look 0, .look 1, .insert 0, .insert 1]

/-- They have different variables. -/
theorem lookups_not_unique_overlapping :
    ¬ Along (recorded Lookups.step Lookups.hand) Lookups.Unique ({}, []) overlappingLookups := by
  have hr : (run (recorded Lookups.step Lookups.hand) ({}, []) overlappingLookups).isSome := by
    decide +kernel
  rw [lookups_unique_iff overlappingLookups hr]
  decide +kernel

end Xupeng.Config
