import Xupeng.Models.IOManager.Interpretation.Table
import Xupeng.Models.IOManager.Native.Threads

/-!
# What a step of the threads does

Most steps only move calls and batches along. A step either moves the table and
lets the effects happen, or it aborts the process; `step_cases` says so once, and
every invariant below starts from it.
-/

namespace Xupeng.IOManager.State

variable {S F C : Type} {s t : State S F C}

/-- The section that a step runs, with the context it runs on and the result of `epoll_ctl`. -/
def sectionOf (s : State S F C) : Step S F C → Option (Nat × Section S F C × Bool)
  | .commit i rt =>
    match s.calls[i]? with
    | some (call, .locked p) => some (p, call.toSection, rt)
    | _ => none
  | .process i rt =>
    match s.batches[i]? with
    | some ((p, event) :: _) => some (p, .process event, rt)
    | _ => none
  | _ => none

/-- The table moved and the effects happened. -/
structure Moved (s t : State S F C) (es : List (Effect S F C)) : Prop where
  table : s.toTable.Moves t.toTable es
  pendingEventCount : t.pendingEventCount = s.pendingEventCount + total Effect.delta es
  trace : t.trace = s.trace ++ es
  abort : t.abort = none ∨ t.abort = some .outOfBounds

/-- A section ran into an assertion. -/
structure Aborted (s t : State S F C) (a : Abort) : Prop where
  table : t.toTable = s.toTable
  pendingEventCount : t.pendingEventCount = s.pendingEventCount
  trace : t.trace = s.trace
  abort : t.abort = some a

/-- A step that neither registers nor settles anything. -/
theorem Moved.of_table (h : s.toTable.Moves t.toTable [])
    (hp : t.pendingEventCount = s.pendingEventCount) (ht : t.trace = s.trace)
    (ha : t.abort = none ∨ t.abort = some .outOfBounds) : Moved s t [] :=
  ⟨h, by simp [hp], by simp [ht], ha⟩

theorem enter_moved (hg : s.toTable.Good) (h : s.abort = none) (call : Call S F C) :
    Moved s (s.enter call) [] := by
  unfold enter
  split
  · exact Moved.of_table (.refl hg) rfl rfl (Or.inl h)
  · exact Moved.of_table (.refl hg) rfl rfl (Or.inl h)

theorem grow_moved (hg : s.toTable.Good) (h : s.abort = none) {i : Nat} (ht : s.grow i = some t) :
    Moved s t [] := by
  unfold grow at ht
  split at ht
  · rename_i call _
    have hm : s.toTable.Moves (s.toTable.grow call) [] := Table.contextResize_moves hg _
    dsimp only at ht
    split at ht
    · obtain rfl := Option.some.inj ht
      exact Moved.of_table hm rfl rfl (Or.inl h)
    · obtain rfl := Option.some.inj ht
      exact Moved.of_table hm rfl rfl (Or.inr rfl)
  · cases ht

/-- A batch hands nothing out by itself. -/
theorem wait_moved (hg : s.toTable.Good) (h : s.abort = none)
    {events : List (Nat × EpollEvents)} (ht : s.wait events = some t) : Moved s t [] := by
  obtain ⟨batch, -, rfl⟩ := Option.map_eq_some_iff.mp ht
  exact Moved.of_table (.refl hg) rfl rfl (Or.inl h)

/-- A step that runs the section `sec` on the context `c`: it moves the table or aborts. -/
def Ran (s t : State S F C) (sec : Section S F C) (rt : Bool) (c : FdContext S F C) : Prop :=
  (∃ r, sec.exec rt c = .ok r ∧ Moved s t r.effects) ∨
    ∃ a, sec.exec rt c = .error a ∧ Aborted s t a ∧
      (a = .addEventBusy ∨ a = .getContext ∨ a = .fiberState ∨
        a = .triggerEvent ∧ ∃ event, sec = .process event)

/-- A section is run on a context of the table. -/
theorem runSection_cases (hg : s.toTable.Good) (h : s.abort = none) {p : Nat} {rt : Bool}
    {sec : Section S F C} (ht : s.runSection p rt sec = some t) :
    ∃ c, s.contexts[p]? = some c ∧ c.Good ∧ Ran s t sec rt c := by
  obtain ⟨o, ho, hstate⟩ := Option.map_eq_some_iff.mp ht
  obtain ⟨c, hc, hgood, ⟨r, t', hr, rfl, hm⟩ | ⟨a, ha, rfl, hwhich⟩⟩ := Table.exec_cases hg ho
  · subst hstate
    exact ⟨c, hc, hgood, Or.inl ⟨r, hr, ⟨hm, rfl, rfl, Or.inl h⟩⟩⟩
  · subst hstate
    exact ⟨c, hc, hgood, Or.inr ⟨a, ha, ⟨rfl, rfl, rfl, rfl⟩, hwhich⟩⟩

/-- What a step is: the lookup of a call, a resize, a batch, or a section. A section is run on the
table as it is, after the calls and batches in progress have been moved along. -/
inductive Taken (s : State S F C) : Step S F C → State S F C → Prop
  | enter (call : Call S F C) : Taken s (.enter call) (s.enter call)
  | grow {i : Nat} {t : State S F C} (ht : s.grow i = some t) : Taken s (.grow i) t
  | wait {events : List (Nat × EpollEvents)} {t : State S F C} (ht : s.wait events = some t) :
    Taken s (.wait events) t
  | exec {a : Step S F C} {p : Nat} {sec : Section S F C} {rt : Bool}
    {calls : List (Call S F C × Stage)} {batches : List (List (Nat × EpollEvents))}
    {t : State S F C} (hsec : s.sectionOf a = some (p, sec, rt))
    (hcalls : ∀ x ∈ calls, x ∈ s.calls)
    (ht : State.runSection p rt sec { s with calls := calls, batches := batches } = some t) :
    Taken s a t

theorem step_taken {a : Step S F C} (h : s.step a = some t) : s.abort = none ∧ s.Taken a t := by
  unfold step at h
  split at h
  · cases h
  rename_i habort
  refine ⟨Option.not_isSome_iff_eq_none.mp habort, ?_⟩
  cases a with
  | enter call =>
    obtain rfl := Option.some.inj h
    exact .enter call
  | grow i => exact .grow h
  | wait events => exact .wait h
  | commit i rt =>
    dsimp only at h
    unfold commit at h
    split at h
    · rename_i call p hcall
      have hsec : s.sectionOf (.commit i rt) = some (p, call.toSection, rt) := by
        simp only [sectionOf, hcall]
      exact .exec hsec (fun x hx => List.mem_of_mem_eraseIdx hx) h
    · cases h
  | process i rt =>
    dsimp only at h
    unfold process at h
    split at h
    · rename_i p event rest hbatch
      have hsec : s.sectionOf (.process i rt) = some (p, .process event, rt) := by
        simp only [sectionOf, hbatch]
      exact .exec hsec (fun x hx => hx) h
    · cases h

/-- Everything a step can do to the table. -/
theorem step_cases (hg : s.toTable.Good) {a : Step S F C} (h : s.step a = some t) :
    s.sectionOf a = none ∧ Moved s t [] ∨
      ∃ p sec rt c, s.sectionOf a = some (p, sec, rt) ∧ s.contexts[p]? = some c ∧ c.Good ∧
        Ran s t sec rt c := by
  obtain ⟨hnone, htaken⟩ := step_taken h
  cases htaken with
  | enter call => exact Or.inl ⟨rfl, enter_moved hg hnone call⟩
  | grow ht => exact Or.inl ⟨rfl, grow_moved hg hnone ht⟩
  | wait ht => exact Or.inl ⟨rfl, wait_moved hg hnone ht⟩
  | @exec _ p sec rt calls batches _ hsec _ ht =>
    obtain ⟨c, hc, hgood, ⟨r, hr, hm⟩ | ⟨x, hx, hab, hwhich⟩⟩ :=
      runSection_cases (s := { s with calls := calls, batches := batches }) hg hnone ht
    · exact Or.inr ⟨p, sec, rt, c, hsec, hc, hgood, Or.inl ⟨r, hr, ⟨hm.1, hm.2, hm.3, hm.4⟩⟩⟩
    · exact Or.inr ⟨p, sec, rt, c, hsec, hc, hgood,
        Or.inr ⟨x, hx, ⟨hab.1, hab.2, hab.3, hab.4⟩, hwhich⟩⟩

end Xupeng.IOManager.State
