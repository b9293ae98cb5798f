import Xupeng.Models.Config.Interpretation.Places

/-!
# The calls that loading makes

The loop of `LoadFromYaml` changes variables and makes none, so that which calls it makes is
known from the variables before it. A variable ends as its own calls leave it.
-/

namespace Xupeng.Config

open Yaml

variable {V : Type} {emit : Node → String} {fromString : String → V → V}

/-- The call for one listed node, if there is a variable of its name. -/
def called (emit : Node → String) (datas : Datas V) (m : List Char × Node) :
    Option (List Char × String) :=
  if m.1 ≠ [] ∧ (datas.find (lower m.1)).isSome then some (lower m.1, given emit m.2) else none

/-- What the calls make of the variable with this name. -/
def applied (fromString : String → V → V) (calls : List (List Char × String)) (name : List Char)
    (var : V) : V :=
  (calls.filter (·.1 = name)).foldl (fun var call => fromString call.2 var) var

variable (emit fromString)

/-- One turn of the loop: nothing happens, or one variable is given its text. -/
theorem visit_cases (s : Loading V) (m : List Char × Node) :
    called emit s.datas m = none ∧ visit emit fromString s m = s ∨
      ∃ call, called emit s.datas m = some call ∧
        (visit emit fromString s m).calls = s.calls ++ [call] ∧
        ∀ name, (visit emit fromString s m).datas.find name =
          (s.datas.find name).map (applied fromString [call] name) := by
  by_cases hnil : m.1 = []
  · exact .inl ⟨if_neg fun h => h.1 hnil, if_pos hnil⟩
  unfold visit
  rw [if_neg hnil]
  dsimp only
  split
  · rename_i hnone
    refine .inl ⟨if_neg fun h => ?_, rfl⟩
    rw [hnone] at h
    exact Bool.false_ne_true h.2
  · rename_i var hsome
    refine .inr ⟨_, if_pos ⟨hnil, by rw [hsome]; rfl⟩, rfl, fun name => ?_⟩
    dsimp only [Datas.set]
    by_cases hname : name = lower m.1
    · subst hname
      rw [Function.update_self, hsome]
      simp [applied]
    · have hother : applied fromString [(lower m.1, given emit m.2)] name = id := by
        funext var
        simp [applied, Ne.symm hname]
      rw [Function.update_of_ne hname, hother, Option.map_id, id]

/-- A turn of the loop does not change which variables there are. -/
theorem called_visit (s : Loading V) (m : List Char × Node) :
    called emit (visit emit fromString s m).datas = called emit s.datas := by
  obtain ⟨-, hsame⟩ | ⟨call, -, -, hfind⟩ := visit_cases emit fromString s m
  · rw [hsame]
  · funext m'
    simp only [called, hfind, Option.isSome_map]

theorem applied_append (calls calls' : List (List Char × String)) (name : List Char) (var : V) :
    applied fromString (calls ++ calls') name var =
      applied fromString calls' name (applied fromString calls name var) := by
  simp only [applied, List.filter_append, List.foldl_append]

/-- The whole loop. -/
theorem foldl_visit (ms : List (List Char × Node)) (s : Loading V) :
    (ms.foldl (visit emit fromString) s).calls = s.calls ++ ms.filterMap (called emit s.datas) ∧
      ∀ name, (ms.foldl (visit emit fromString) s).datas.find name =
        (s.datas.find name).map
          (applied fromString (ms.filterMap (called emit s.datas)) name) := by
  induction ms generalizing s with
  | nil =>
    refine ⟨(List.append_nil _).symm, fun name => ?_⟩
    exact (congrFun Option.map_id _).symm
  | cons m ms ih =>
    obtain ⟨hcalls, hfind⟩ := ih (visit emit fromString s m)
    rw [called_visit emit fromString s m] at hcalls hfind
    rw [List.foldl_cons, List.filterMap_cons]
    obtain ⟨hnone, hsame⟩ | ⟨call, hsome, hone, hset⟩ := visit_cases emit fromString s m
    · rw [hsame] at hcalls hfind ⊢
      rw [hnone]
      exact ⟨hcalls, hfind⟩
    · rw [hsome]
      refine ⟨?_, fun name => ?_⟩
      · rw [hcalls, hone, List.append_assoc]
        rfl
      · rw [hfind, hset, Option.map_map]
        congr 1
        funext var
        exact (applied_append fromString [call] _ name var).symm

/-- The call for a place, whose name has to be accepted. -/
def callAt (emit : Node → String) (datas : Datas V) (x : Place) : Option (List Char × String) :=
  if Accepted (x.name []) then called emit datas (x.name [], x.node) else none

/-- The members that are listed are the places. -/
theorem filterMap_listAllMember (datas : Datas V) (root : Node) :
    (listAllMember [] root).filterMap (called emit datas) =
      (places root).filterMap (callAt emit datas) := by
  rw [listAllMember_eq, List.filterMap_filter, List.filterMap_map]
  congr 1
  funext x
  simp only [callAt, Function.comp_apply, decide_eq_true_eq]

/-- The calls that `LoadFromYaml` makes, in their order. -/
theorem calls_eq (root : Node) (datas : Datas V) :
    (loadFromYaml emit fromString root datas).calls =
      (places root).filterMap (callAt emit datas) := by
  rw [← filterMap_listAllMember]
  exact (foldl_visit emit fromString _ _).1

/-- Each variable is as its calls leave it. -/
theorem find_eq (root : Node) (datas : Datas V) (name : List Char) :
    (loadFromYaml emit fromString root datas).datas.find name =
      (datas.find name).map
        (applied fromString (loadFromYaml emit fromString root datas).calls name) := by
  rw [calls_eq, ← filterMap_listAllMember]
  exact (foldl_visit emit fromString _ _).2 name

end Xupeng.Config
