import Xupeng.Core.CString
import Xupeng.Models.Config.Correctness.Loading
import Xupeng.Models.Config.Interpretation.Recasing

/-!
# Whether keys are case-insensitive

`LoadFromYaml` looks a name up in lower case, but `ListAllMember` has dropped every name with a
capital letter before. A document loads alike in every case of its keys exactly when no
variable that it reaches has a letter in its path, and none is given a text that depends on
the case of keys.
-/

namespace Xupeng.Config

open Yaml

variable {V : Type} {emit : Node → String} {datas : Datas V}

/-- The path of the place is the name of a variable, in some case. -/
def Registered (datas : Datas V) (x : Place) : Prop :=
  x.name [] ≠ [] ∧ (datas.find (lower (x.name []))).isSome

/-- Where the path of a place is the name of a variable it has no letters, and the text that the
variable is given is the same in every case of the keys below the place. -/
def CaseBlind (emit : Node → String) (datas : Datas V) (t : Node) : Prop :=
  ∀ x : Place, x.In t → Registered datas x →
    (∀ c ∈ x.name [], ¬ c.isAlpha) ∧
      ∀ node, Recased false x.node node → given emit node = given emit x.node

/-! ## Characters -/

/-- Small letters are 32 behind the capital ones. -/
theorem toNat_toUpper (c : Char) :
    c.toUpper.toNat = if 97 ≤ c.toNat ∧ c.toNat ≤ 122 then c.toNat - 32 else c.toNat := by
  have hrange : ('a'.val ≤ c.val ∧ c.val ≤ 'z'.val) = (97 ≤ c.toNat ∧ c.toNat ≤ 122) := rfl
  unfold Char.toUpper
  split
  · rename_i h
    rw [hrange] at h
    rw [if_pos h]
    refine (UInt32.toNat_add _ _).trans ?_
    exact (by omega : (c.toNat + 4294967264) % 4294967296 = c.toNat - 32)
  · rename_i h
    rw [hrange] at h
    rw [if_neg h]

/-- The letters are those of ASCII. -/
theorem isAlpha_iff (c : Char) :
    c.isAlpha ↔ 65 ≤ c.toNat ∧ c.toNat ≤ 90 ∨ 97 ≤ c.toNat ∧ c.toNat ≤ 122 := by
  have hcode : c.isAlpha = (decide (65 ≤ c.toNat ∧ c.toNat ≤ 90) ||
      (decide (97 ≤ c.toNat) && decide (c.toNat ≤ 122))) := rfl
  simp only [hcode, Bool.or_eq_true, Bool.and_eq_true, decide_eq_true_eq]

/-- A text in lower case has no capital letters. -/
theorem toLower_toLower (c : Char) : c.toLower.toLower = c.toLower := by
  have hlower := toNat_toLower c
  apply Char.toNat_inj.mp
  rw [toNat_toLower c.toLower, if_neg]
  split at hlower <;> omega

/-- Both cases of a letter are the same in lower case. -/
theorem toLower_toUpper (c : Char) : c.toUpper.toLower = c.toLower := by
  have hupper := toNat_toUpper c
  apply Char.toNat_inj.mp
  rw [toNat_toLower, toNat_toLower]
  split at hupper <;> split <;> split <;> omega

/-- A character that is not a letter is alone in its case. -/
theorem eq_of_toLower_eq {c c' : Char} (hc : ¬ c.isAlpha) (h : c'.toLower = c.toLower) :
    c' = c := by
  have hcode := congrArg Char.toNat h
  rw [toNat_toLower, toNat_toLower] at hcode
  rw [isAlpha_iff] at hc
  apply Char.toNat_inj.mp
  split at hcode <;> split at hcode <;> omega

theorem eq_of_lower_eq {name name' : List Char} (hname : ∀ c ∈ name, ¬ c.isAlpha)
    (h : lower name' = lower name) : name' = name := by
  induction name generalizing name' with
  | nil => exact List.map_eq_nil_iff.mp h
  | cons c name ih =>
    cases name' with
    | nil => cases h
    | cons c' name' =>
      obtain ⟨hc, hrest⟩ := List.cons.inj h
      obtain ⟨hcname, hname⟩ := List.forall_mem_cons.mp hname
      rw [eq_of_toLower_eq hcname hc, ih hname hrest]

/-- No capital letter is accepted. -/
theorem not_upper_of_mem_alphabet {c : Char} (h : c ∈ alphabet) :
    ¬ (65 ≤ c.toNat ∧ c.toNat ≤ 90) := by
  intro hupper
  have hlower := toNat_toLower c
  rw [toLower_of_mem_alphabet h, if_pos hupper] at hlower
  omega

/-- A name that is accepted in upper case has no letters. -/
theorem not_isAlpha_of_accepted_upper {name : List Char} (h : Accepted (name.map Char.toUpper)) :
    ∀ c ∈ name, ¬ c.isAlpha := by
  intro c hc halpha
  apply not_upper_of_mem_alphabet (h _ (List.mem_map_of_mem hc))
  rw [toNat_toUpper]
  rw [isAlpha_iff] at halpha
  split <;> omega

/-! ## Calls at places -/

/-- The case of a name does not matter for that. -/
theorem registered_of_same {x y : Place} (h : x.Same y) :
    Registered datas x ↔ Registered datas y := by
  have hlower := h.lower_name
  have hlength : (x.name []).length = (y.name []).length := by
    simpa only [lower, List.length_map] using congrArg List.length hlower
  have hnil : x.name [] = [] ↔ y.name [] = [] := by
    rw [← List.length_eq_zero_iff, hlength, List.length_eq_zero_iff]
  unfold Registered
  rw [hlower, ne_eq, hnil]

/-- Where no variable has the name nothing is called. -/
theorem callAt_eq_none {x : Place} (h : ¬ Registered datas x) : callAt emit datas x = none := by
  unfold callAt
  split
  · exact if_neg h
  · rfl

/-- A variable is called when its name is accepted. -/
theorem callAt_of_registered (emit : Node → String) {x : Place} (h : Registered datas x)
    (hname : Accepted (x.name [])) :
    callAt emit datas x = some (lower (x.name []), given emit x.node) := by
  unfold callAt
  rw [if_pos hname]
  exact if_pos h

/-- Without letters the name of a variable is accepted. -/
theorem accepted_of_registered {x : Place} (h : Registered datas x)
    (hname : ∀ c ∈ x.name [], ¬ c.isAlpha) : Accepted (x.name []) := by
  have hlower : lower (x.name []) = x.name [] := by
    refine eq_of_lower_eq hname ?_
    simp only [lower, List.map_map]
    exact List.map_congr_left fun c _ => toLower_toLower c
  rw [← hlower]
  exact datas.accepted _ h.2

/-- At the same place of two documents, if its name has no letters, the same variable is called
or none. -/
theorem callAt_of_same (emit : Node → String) {x y : Place} (h : x.Same y)
    (hname : Registered datas x → ∀ c ∈ x.name [], ¬ c.isAlpha) :
    callAt emit datas x = none ∧ callAt emit datas y = none ∨
      callAt emit datas x = some (lower (x.name []), given emit x.node) ∧
        callAt emit datas y = some (lower (x.name []), given emit y.node) := by
  by_cases hx : Registered datas x
  · have heq : y.name [] = x.name [] := eq_of_lower_eq (hname hx) h.lower_name.symm
    have haccepted := accepted_of_registered hx (hname hx)
    have hy := callAt_of_registered emit ((registered_of_same h).mp hx)
      (heq ▸ haccepted)
    rw [heq] at hy
    exact .inr ⟨callAt_of_registered emit hx haccepted, hy⟩
  · exact .inl ⟨callAt_eq_none hx, callAt_eq_none ((registered_of_same h).not.mp hx)⟩

/-! ## Lists of calls -/

section

variable {α β : Type} {f g : α → Option β} {l l' : List α}

/-- Lists that agree item by item on what is picked give the same picks. -/
theorem filterMap_eq_of_forall₂ {R : α → α → Prop} (h : List.Forall₂ R l l')
    (heq : ∀ x ∈ l, ∀ y, R x y → f x = f y) : l.filterMap f = l'.filterMap f := by
  induction h with
  | nil => rfl
  | @cons x y l l' hxy _ ih =>
    obtain ⟨hx, hl⟩ := List.forall_mem_cons.mp heq
    rw [List.filterMap_cons, List.filterMap_cons, hx y hxy, ih hl]

/-- If one function is defined where the other is, and gives as many values, it is so at the
same places. -/
theorem isSome_of_length_eq (hsub : ∀ x ∈ l, (g x).isSome → (f x).isSome)
    (hlen : (l.filterMap f).length = (l.filterMap g).length) :
    ∀ x ∈ l, (f x).isSome → (g x).isSome := by
  induction l with
  | nil => exact nofun
  | cons x l ih =>
    obtain ⟨hx, hl⟩ := List.forall_mem_cons.mp hsub
    have hle : (l.filterMap g).length ≤ (l.filterMap f).length := by
      rw [List.length_filterMap_eq_countP, List.length_filterMap_eq_countP]
      exact List.countP_mono_left hl
    rw [List.filterMap_cons, List.filterMap_cons] at hlen
    refine List.forall_mem_cons.mpr ?_
    cases hf : f x with
    | none =>
      cases hg : g x with
      | none =>
        rw [hf, hg] at hlen
        exact ⟨id, ih hl hlen⟩
      | some b =>
        rw [hf, hg] at hx
        cases hx rfl
    | some a =>
      cases hg : g x with
      | none =>
        rw [hf, hg] at hlen
        simp only [List.length_cons] at hlen
        omega
      | some b =>
        rw [hf, hg] at hlen
        exact ⟨fun _ => rfl, ih hl (Nat.succ.inj hlen)⟩

/-- If a function is defined at the same places of two lists and gives the same values in all, it
gives the same value at each place. -/
theorem exists_of_filterMap_eq {R : α → α → Prop} (h : List.Forall₂ R l l')
    (hsome : ∀ x ∈ l, ∀ y, R x y → (f x).isSome = (f y).isSome)
    (heq : l.filterMap f = l'.filterMap f) {x : α} (hx : x ∈ l) :
    ∃ y ∈ l', R x y ∧ f x = f y := by
  induction h with
  | nil => cases hx
  | @cons a b l l' hab _ ih =>
    obtain ⟨ha, hl⟩ := List.forall_mem_cons.mp hsome
    have hsame := ha b hab
    rw [List.filterMap_cons, List.filterMap_cons] at heq
    have hhead : f a = f b ∧ l.filterMap f = l'.filterMap f := by
      cases hfa : f a with
      | none =>
        cases hfb : f b with
        | none =>
          rw [hfa, hfb] at heq
          exact ⟨rfl, heq⟩
        | some v =>
          rw [hfa, hfb] at hsame
          cases hsame
      | some u =>
        cases hfb : f b with
        | none =>
          rw [hfa, hfb] at hsame
          cases hsame
        | some v =>
          rw [hfa, hfb] at heq
          obtain ⟨huv, hrest⟩ := List.cons.inj heq
          exact ⟨congrArg some huv, hrest⟩
    rcases List.mem_cons.mp hx with rfl | hx
    · exact ⟨b, List.mem_cons_self, hab, hhead.1⟩
    · obtain ⟨y, hy, hxy, hfy⟩ := ih hl hhead.2 hx
      exact ⟨y, List.mem_cons_of_mem b hy, hxy, hfy⟩

end

/-! ## The two extreme cases -/

/-- Changing the case of the keys does not move a place. -/
theorem same_recase {f : Char → Char} (hf : ∀ c, (f c).toLower = c.toLower) (x : Place) :
    x.Same (x.recase f) := by
  refine ⟨rfl, ?_, recased_recase hf x.node⟩
  simp only [Place.recase, List.map_map]
  exact List.map_congr_left fun key _ => (lower_map hf key).symm

/-- In lower case every variable is called. -/
theorem isSome_callAt_lower {x : Place} (h : Registered datas x) :
    (callAt emit datas (x.recase Char.toLower)).isSome := by
  have hsame := same_recase toLower_toLower x
  have hname : Accepted ((x.recase Char.toLower).name []) := by
    rw [name_recase x rfl]
    exact datas.accepted _ h.2
  rw [callAt_of_registered emit ((registered_of_same hsame).mp h) hname]
  rfl

/-- In upper case only variables without letters are. -/
theorem registered_of_callAt_upper {x : Place}
    (h : (callAt emit datas (x.recase Char.toUpper)).isSome) :
    Registered datas x ∧ ∀ c ∈ x.name [], ¬ c.isAlpha := by
  have hsame := same_recase toLower_toUpper x
  constructor
  · by_contra hx
    rw [callAt_eq_none ((registered_of_same hsame).not.mp hx)] at h
    cases h
  · by_cases hname : Accepted ((x.recase Char.toUpper).name [])
    · rw [name_recase x rfl] at hname
      exact not_isAlpha_of_accepted_upper hname
    · rw [callAt, if_neg hname] at h
      cases h

variable {fromString : String → V → V} {t : Node}

/-- Loading alike in every case leaves no letters in the paths of variables. -/
theorem not_isAlpha_of_insensitive
    (h : ∀ t', Recased false t t' → (loadFromYaml emit fromString t' datas).calls =
      (loadFromYaml emit fromString t datas).calls)
    {x : Place} (hx : x.In t) (hreg : Registered datas x) : ∀ c ∈ x.name [], ¬ c.isAlpha := by
  have hcalls := (h _ (recased_recase toLower_toLower t)).trans
    (h _ (recased_recase toLower_toUpper t)).symm
  rw [calls_eq, calls_eq, places_recase, places_recase, List.filterMap_map, List.filterMap_map]
    at hcalls
  have hupper := isSome_of_length_eq
    (fun x _ hsome => isSome_callAt_lower (registered_of_callAt_upper hsome).1)
    (congrArg List.length hcalls) x ((mem_places t).mpr hx) (isSome_callAt_lower hreg)
  exact (registered_of_callAt_upper hupper).2

/-- A document loads with the same calls in every case of its keys exactly when it is
`CaseBlind`. -/
theorem case_insensitive_iff (emit : Node → String) (fromString : String → V → V)
    (datas : Datas V) (t : Node) :
    (∀ t', Recased false t t' → (loadFromYaml emit fromString t' datas).calls =
      (loadFromYaml emit fromString t datas).calls) ↔ CaseBlind emit datas t := by
  constructor
  · intro h x hx hreg
    have hletters {y : Place} (hy : y ∈ places t) (hreg : Registered datas y) :=
      not_isAlpha_of_insensitive h ((mem_places t).mp hy) hreg
    refine ⟨hletters ((mem_places t).mpr hx) hreg, fun node hnode => ?_⟩
    -- replace the node at this place alone
    obtain ⟨t', ht', hplace⟩ := exists_recased_at hx hnode
    have hcalls := (h t' ht').symm
    rw [calls_eq, calls_eq] at hcalls
    obtain ⟨y, hy, hsame, heq⟩ := exists_of_filterMap_eq (places_same t ht')
      (fun y hy z hyz => by
        rcases callAt_of_same emit hyz (hletters hy) with ⟨hy, hz⟩ | ⟨hy, hz⟩
        · rw [hy, hz]
        · rw [hy, hz]
          rfl) hcalls ((mem_places t).mpr hx)
    have hynode : y.node = node := by
      have hyin := (mem_places t').mp hy
      unfold Place.In at hyin hplace
      rw [← hsame.position, hplace] at hyin
      exact (congrArg Prod.snd (Option.some.inj hyin)).symm
    rcases callAt_of_same emit hsame (fun _ => hletters ((mem_places t).mpr hx) hreg)
      with ⟨hnone, -⟩ | ⟨hcx, hcy⟩
    · have haccepted := accepted_of_registered hreg (hletters ((mem_places t).mpr hx) hreg)
      rw [callAt_of_registered emit hreg haccepted] at hnone
      cases hnone
    · rw [hcx, hcy, hynode] at heq
      exact (congrArg Prod.snd (Option.some.inj heq)).symm
  · intro h t' ht'
    rw [calls_eq, calls_eq, eq_comm]
    refine filterMap_eq_of_forall₂ (places_same t ht') fun x hx y hxy => ?_
    have hblind := h x ((mem_places t).mp hx)
    rcases callAt_of_same emit hxy (fun hreg => (hblind hreg).1) with
      ⟨hcx, hcy⟩ | ⟨hcx, hcy⟩
    · rw [hcx, hcy]
    · by_cases hreg : Registered datas x
      · rw [hcx, hcy, (hblind hreg).2 y.node hxy.node]
      · rw [callAt_eq_none hreg] at hcx
        cases hcx

/-- `{a: 1}` sets the variable `a`, and `{A: 1}` does not. -/
theorem case_sensitive_capital :
    Recased false (.map [(.scalar "a", .scalar "1")]) (.map [(.scalar "A", .scalar "1")]) ∧
      (loadFromYaml (fun _ => "") (fun text texts => texts ++ [text])
        (.map [(.scalar "a", .scalar "1")]) twoVariables).calls = [(['a'], "1")] ∧
      (loadFromYaml (fun _ => "") (fun text texts => texts ++ [text])
        (.map [(.scalar "A", .scalar "1")]) twoVariables).calls = [] := by
  refine ⟨.map (.cons (.key ?_) (.text "1") (.nil false)), ?_, ?_⟩ <;> decide

end Xupeng.Config
