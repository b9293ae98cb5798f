import Mathlib.Data.List.Chain
import Xupeng.Core.Run
import Xupeng.Models.Config.Native.ConfigVar

/-!
# What listeners are told under concurrent updates

Any number of threads call `SetValue`. Beside the variable stand the calls that are
between their two sections and, for each listener, what it has been told. Two calls that
notify before either of them has assigned cross each other: the second one still reports
the old value, and the last one to assign need not be the last one to notify.
-/

namespace Xupeng.Config

variable {T L : Type}

/-- A variable with the calls of `SetValue` that are pending, and for each key what the listener
has been told, as pairs of the old and the new value. -/
structure Updates (T L : Type) where
  var : ConfigVar T L
  pending : List T
  history : Nat → List (T × T)

/-- The sections of the calls. -/
inductive Section (T : Type)
  /-- A thread calls `SetValue(v)`, up to the end of the first section. -/
  | compare (v : T)
  /-- A pending call assigns. -/
  | assign (i : Nat)
  deriving DecidableEq, Repr

/-- What the listener with this key is told. -/
def told (notices : List (Notice T L)) (key : Nat) : List (T × T) :=
  (notices.filter (·.key = key)).map fun n => (n.old_value, n.new_value)

/-- One section. -/
def step [DecidableEq T] (s : Updates T L) : Section T → Option (Updates T L)
  | .compare v =>
    match s.var.compare v with
    | none => some s
    | some notices =>
      some { s with
        pending := s.pending ++ [v]
        history := fun key => s.history key ++ told notices key }
  | .assign i =>
    s.pending[i]?.map fun v =>
      { s with var := s.var.assign v, pending := s.pending.eraseIdx i }

/-- A variable that no call has touched. -/
def init (x : ConfigVar T L) : Updates T L := ⟨x, [], fun _ => []⟩

/-- Each old value is the new value before it. -/
def Linked (history : List (T × T)) : Prop := history.IsChain fun a b => b.1 = a.2

/-- In every history each old value is the new value before it, and while no call is pending the
last new value is that of the variable. -/
def Converged (s : Updates T L) : Prop :=
  ∀ key, Linked (s.history key) ∧
    (s.pending = [] → ∀ last ∈ (s.history key).getLast?, last.2 = s.var.val)

/-- A call that notifies listeners of a change finds no other call pending. -/
def Alone (s : Updates T L) : Section T → Prop
  | .compare v => s.var.cbs = [] ∨ v = s.var.val ∨ s.pending = []
  | .assign _ => True

instance [DecidableEq T] [DecidableEq L] (s : Updates T L) (a : Section T) :
    Decidable (Alone s a) := by
  cases a <;> unfold Alone <;> infer_instance

/-! ## Notices and histories -/

/-- The first section tells every listener the old and the new value, once. -/
theorem told_map {cbs : List (Nat × L)} (h : cbs.Pairwise (·.1 < ·.1)) (a b : T) (key : Nat) :
    told (cbs.map fun i => (⟨i.1, i.2, a, b⟩ : Notice T L)) key =
      if key ∈ cbs.map Prod.fst then [(a, b)] else [] := by
  induction h with
  | nil => rfl
  | @cons i is hi _ ih =>
    unfold told at ih ⊢
    by_cases hkey : i.1 = key
    · have hnot : key ∉ is.map Prod.fst := by
        intro hmem
        obtain ⟨j, hj, hjkey⟩ := List.mem_map.mp hmem
        have hlt := hi j hj
        omega
      rw [if_neg hnot] at ih
      simp [hkey, ih]
    · have hne : key ≠ i.1 := Ne.symm hkey
      simp only [List.map_cons, List.filter_cons, hkey, decide_false, Bool.false_eq_true, if_false,
        ih, List.mem_cons, hne, false_or]

theorem linked_append {history : List (T × T)} {a b : T} :
    Linked (history ++ [(a, b)]) ↔ Linked history ∧ ∀ last ∈ history.getLast?, a = last.2 := by
  simp [Linked, List.isChain_append]

/-- The states that a section leads to. -/
theorem step_cases [DecidableEq T] {s t : Updates T L} {a : Section T} (h : step s a = some t) :
    (∃ v, a = .compare v ∧ v = s.var.val ∧ t = s) ∨
      (∃ v, a = .compare v ∧ v ≠ s.var.val ∧ t = { s with
        pending := s.pending ++ [v]
        history := fun key => s.history key ++
          if key ∈ s.var.cbs.map Prod.fst then [(s.var.val, v)] else [] }) ∨
      ∃ i v, a = .assign i ∧ s.pending[i]? = some v ∧
        t = { s with var := s.var.assign v, pending := s.pending.eraseIdx i } := by
  cases a with
  | compare v =>
    by_cases hv : v = s.var.val
    · simp only [step, ConfigVar.compare, if_pos hv, Option.some.injEq] at h
      exact Or.inl ⟨v, rfl, hv, h.symm⟩
    · simp only [step, ConfigVar.compare, if_neg hv, Option.some.injEq, told_map s.var.sorted] at h
      exact Or.inr (Or.inl ⟨v, rfl, hv, h.symm⟩)
  | assign i =>
    obtain ⟨v, hi, ht⟩ := Option.map_eq_some_iff.mp h
    exact Or.inr (Or.inr ⟨i, v, rfl, hi, ht.symm⟩)

/-- What holds while the listeners have converged: only listeners have a history, and if there
are any, at most one call is pending, the last to notify, and its value is new. -/
structure Orderly (s : Updates T L) : Prop where
  unheard : ∀ key, key ∉ s.var.cbs.map Prod.fst → s.history key = []
  single : s.var.cbs ≠ [] → s.pending = [] ∨ ∃ v, s.pending = [v] ∧ v ≠ s.var.val ∧
    ∀ key ∈ s.var.cbs.map Prod.fst, ∃ old, (s.history key).getLast? = some (old, v)

/-- Without listeners nothing is told. -/
theorem converged_of_unheard {s : Updates T L} (h : ∀ key, s.history key = []) : Converged s := by
  intro key
  rw [h key]
  exact ⟨List.isChain_nil, nofun⟩

/-- A call that notifies while no other is pending. -/
theorem converged_notify {s : Updates T L} (hc : Converged s) (hpending : s.pending = []) (v : T) :
    Converged { s with
      pending := s.pending ++ [v]
      history := fun key => s.history key ++
        if key ∈ s.var.cbs.map Prod.fst then [(s.var.val, v)] else [] } := by
  intro key
  refine ⟨?_, by simp⟩
  dsimp only
  split
  · refine linked_append.mpr ⟨(hc key).1, fun last hlast => ?_⟩
    exact ((hc key).2 hpending last hlast).symm
  · rw [List.append_nil]
    exact (hc key).1

/-- A call that notifies while another one is pending reports an old value that is not the last
new one. -/
theorem not_converged_notify {s : Updates T L} {p : T} (hcbs : s.var.cbs ≠ [])
    (hp : p ≠ s.var.val)
    (hlast : ∀ key ∈ s.var.cbs.map Prod.fst, ∃ old, (s.history key).getLast? = some (old, p))
    (v : T) :
    ¬ Converged { s with
      pending := s.pending ++ [v]
      history := fun key => s.history key ++
        if key ∈ s.var.cbs.map Prod.fst then [(s.var.val, v)] else [] } := by
  intro hconv
  obtain ⟨i, hi⟩ := List.exists_mem_of_ne_nil _ hcbs
  have hkey : i.1 ∈ s.var.cbs.map Prod.fst := List.mem_map.mpr ⟨i, hi, rfl⟩
  have hlinked := (hconv i.1).1
  dsimp only at hlinked
  rw [if_pos hkey] at hlinked
  obtain ⟨old, hold⟩ := hlast i.1 hkey
  exact hp ((linked_append.mp hlinked).2 (old, p) hold).symm

/-- The pending call assigns what the listeners were told last. -/
theorem converged_assign {s : Updates T L} {i : Nat} {v : T} (ho : Orderly s) (hc : Converged s)
    (hi : s.pending[i]? = some v) :
    Converged { s with var := s.var.assign v, pending := s.pending.eraseIdx i } := by
  intro key
  refine ⟨(hc key).1, fun _ last hmem => ?_⟩
  by_cases hkey : key ∈ s.var.cbs.map Prod.fst
  · have hcbs : s.var.cbs ≠ [] := by
      intro hnil
      simp [hnil] at hkey
    obtain hpending | ⟨p, hpending, -, hlast⟩ := ho.single hcbs
    · simp [hpending] at hi
    · obtain ⟨old, hold⟩ := hlast key hkey
      have hv : p = v := by
        rw [hpending] at hi
        exact (List.mem_singleton.mp (List.mem_of_getElem? hi)).symm
      dsimp only at hmem
      rw [hold] at hmem
      cases hmem
      exact hv
  · dsimp only at hmem
    rw [ho.unheard key hkey] at hmem
    cases hmem

/-- The listeners stay converged exactly when a call that notifies finds no other call
pending. -/
theorem converged_iff_alone [DecidableEq T] {s t : Updates T L} {a : Section T} (ho : Orderly s)
    (hc : Converged s) (h : step s a = some t) : Converged t ↔ Alone s a := by
  obtain ⟨v, rfl, hv, rfl⟩ | ⟨v, rfl, hv, rfl⟩ | ⟨i, v, rfl, hi, rfl⟩ := step_cases h
  · exact iff_of_true hc (Or.inr (Or.inl hv))
  · by_cases hcbs : s.var.cbs = []
    · refine iff_of_true (converged_of_unheard fun key => ?_) (Or.inl hcbs)
      have hnot : key ∉ s.var.cbs.map Prod.fst := by simp [hcbs]
      dsimp only
      rw [if_neg hnot, ho.unheard key hnot]
      rfl
    · obtain hpending | ⟨p, hpending, hp, hlast⟩ := ho.single hcbs
      · exact iff_of_true (converged_notify hc hpending v) (Or.inr (Or.inr hpending))
      · refine iff_of_false (not_converged_notify hcbs hp hlast v) ?_
        rintro (hnil | hsame | hnone)
        · exact hcbs hnil
        · exact hv hsame
        · rw [hpending] at hnone
          cases hnone
  · exact iff_of_true (converged_assign ho hc hi) trivial

/-- A step between converged states keeps the updates orderly. -/
theorem Orderly.step [DecidableEq T] {s t : Updates T L} {a : Section T} (ho : Orderly s)
    (halone : Alone s a) (h : Config.step s a = some t) : Orderly t := by
  obtain ⟨v, rfl, hv, rfl⟩ | ⟨v, rfl, hv, rfl⟩ | ⟨i, v, rfl, hi, rfl⟩ := step_cases h
  · exact ho
  · refine ⟨fun key hkey => ?_, fun hcbs => ?_⟩
    · dsimp only
      rw [if_neg hkey, ho.unheard key hkey]
      rfl
    · obtain hnil | hsame | hpending := halone
      · exact absurd hnil hcbs
      · exact absurd hsame hv
      · refine Or.inr ⟨v, by simp [hpending], hv, fun key hkey => ⟨s.var.val, ?_⟩⟩
        dsimp only
        rw [if_pos hkey, List.getLast?_append]
        rfl
  · refine ⟨ho.unheard, fun hcbs => Or.inl ?_⟩
    obtain hpending | ⟨p, hpending, -⟩ := ho.single hcbs
    · simp [hpending] at hi
    · have hlt := (List.getElem?_eq_some_iff.mp hi).1
      rw [hpending, List.length_singleton] at hlt
      obtain rfl : i = 0 := by omega
      simp [hpending]

/-- In every run of sections of concurrent calls of `SetValue`, the listeners and the variable
converge exactly when every call that notifies listeners finds no other call pending. -/
theorem listeners_converge_iff [DecidableEq T] (x : ConfigVar T L) (as : List (Section T))
    (hr : (run step (init x) as).isSome) :
    Along step Converged (init x) as ↔ Guarded step Alone (init x) as := by
  have hstart : Orderly (init x) := ⟨fun _ _ => rfl, fun _ => Or.inl rfl⟩
  refine along_iff_guarded (I := Orderly) ?_ ?_ hstart (converged_of_unheard fun _ => rfl) hr
  · intro s a t ho hc hc' h
    exact ho.step ((converged_iff_alone ho hc h).mp hc') h
  · intro s a t ho hc h
    exact converged_iff_alone ho hc h

/-- A variable with one listener, such as `tcp.connect.timeout`. -/
def watched : ConfigVar Nat Unit := ⟨5000, [(1, ())], List.pairwise_singleton _ _⟩

/-- One call after the other. -/
def oneByOne : List (Section Nat) := [.compare 1000, .assign 0, .compare 2000, .assign 0]

/-- Two listeners are told of two changes, one change after the other. -/
theorem listeners_converge_oneByOne :
    Along step Converged (init watched) oneByOne :=
  (listeners_converge_iff watched oneByOne (by decide)).mpr (by decide)

/-- Two calls notify before either of them assigns, and the first one assigns last. -/
def crossing : List (Section Nat) := [.compare 1000, .compare 2000, .assign 1, .assign 0]

/-- In the end no call is pending, the listener has been told 2000 last, and the variable is
1000. -/
theorem listeners_diverge_crossing : ¬ Along step Converged (init watched) crossing := by
  intro h
  have hsome : (run step (init watched) crossing).isSome := by decide
  obtain ⟨t, ht⟩ := Option.isSome_iff_exists.mp hsome
  have hend : (run step (init watched) crossing).all (fun t => t.pending = [] ∧
      (t.history 1).getLast? = some (5000, 2000) ∧ t.var.val = 1000) = true := by decide
  rw [ht] at hend
  obtain ⟨hpending, hlast, hval⟩ := of_decide_eq_true hend
  have hconv := (h.of_run ht 1).2 hpending _ hlast
  rw [hval] at hconv
  exact absurd hconv (by decide)

end Xupeng.Config
