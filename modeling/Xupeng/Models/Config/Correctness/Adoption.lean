import Xupeng.Models.Config.Native.Update

/-!
# Whether an update is all or nothing

`fromString` never returns true, and a listener that throws keeps the value from being
assigned after it and those before it have been told. So the only updates that are all or
nothing are those that change nothing.
-/

namespace Xupeng.ConfigVar

variable {Text T L : Type}

/-- The value was adopted: it is that of the variable, every listener was told the old and the
new one once if it is new and none otherwise, and the call returned true. -/
structure Adopted [DecidableEq T] (v : T) (x : ConfigVar T L) (t : Heard T L) (result : Bool) :
    Prop where
  val : t.var.val = v
  cbs : t.var.cbs = x.cbs
  notices : t.notices.Perm (if v = x.val then [] else x.cbs.map fun i => ⟨i.1, i.2, x.val, v⟩)
  result : result = true

/-- The text was refused: the variable is as it was, no listener was told a value that is not
that of the variable, and the call returned false. -/
structure Refused (x : ConfigVar T L) (t : Heard T L) (result : Bool) : Prop where
  var : t.var = x
  notices : ∀ n ∈ t.notices, n.new_value = x.val
  result : result = false

variable {x : ConfigVar T L} {v : T}

/-- The loop calls the listeners up to the first that throws. -/
theorem notifyAll_cases (throws : Notice T L → Bool) (ns : List (Notice T L)) (s : Heard T L) :
    notifyAll throws ns s = .ok () { s with notices := s.notices ++ ns } ∨
      ∃ n told, n ∈ ns ∧ notifyAll throws ns s =
        .throw () { s with notices := s.notices ++ told ++ [n] } := by
  induction ns generalizing s with
  | nil => exact .inl (by simp [notifyAll, pure, Program.pure])
  | cons n ns ih =>
    unfold notifyAll
    by_cases hthrows : throws n = true
    · refine .inr ⟨n, [], List.mem_cons_self, ?_⟩
      simp [bind, Program.bind, notify, hthrows]
    · have hnotify : notify throws n s = .ok () { s with notices := s.notices ++ [n] } := by
        simp only [notify, if_neg hthrows]
      rw [Program.bind_of_ok hnotify]
      rcases ih { s with notices := s.notices ++ [n] } with hok | ⟨m, told, hm, hthrow⟩
      · refine .inl (hok.trans ?_)
        simp only [List.append_assoc, List.singleton_append]
      · refine .inr ⟨m, n :: told, List.mem_cons_of_mem n hm, hthrow.trans ?_⟩
        simp only [List.append_assoc, List.cons_append, List.nil_append]

variable [DecidableEq T]

/-- A value that is there already is not set. -/
theorem setValue_of_eq (throws : Notice T L → Bool) (s : Heard T L) :
    setValue throws s.var.val s = .ok () s := by
  simp only [setValue, compare, if_true]

/-- A new value is assigned, or a listener has been told it and has thrown. -/
theorem setValue_of_ne (throws : Notice T L → Bool) (hv : v ≠ x.val) :
    (∃ t, setValue throws v ⟨x, []⟩ = .ok () t ∧ t.var.val = v) ∨
      ∃ t n, setValue throws v ⟨x, []⟩ = .throw () t ∧ n ∈ t.notices ∧ n.new_value = v := by
  have hcompare : x.compare v = some (x.cbs.map fun i => ⟨i.1, i.2, x.val, v⟩) := if_neg hv
  simp only [setValue, hcompare]
  rcases notifyAll_cases throws (x.cbs.map fun i => ⟨i.1, i.2, x.val, v⟩) ⟨x, []⟩ with
    hok | ⟨n, told, hn, hthrow⟩
  · rw [hok]
    exact .inl ⟨_, rfl, rfl⟩
  · rw [hthrow]
    obtain ⟨i, -, rfl⟩ := List.mem_map.mp hn
    exact .inr ⟨_, _, rfl, List.mem_append_right _ List.mem_cons_self, rfl⟩

/-- For every variable, text, converter and set of listeners, a call of `fromString` adopts the
value or refuses the text exactly when the text has no value or has that of the variable. -/
theorem fromString_all_or_nothing_iff (fromStr : Text → Option T) (throws : Notice T L → Bool)
    (val : Text) (x : ConfigVar T L) :
    ∃ result t, fromString fromStr throws val ⟨x, []⟩ = .ok result t ∧
      (((∃ v, fromStr val = some v ∧ Adopted v x t result) ∨ Refused x t result) ↔
        fromStr val = none ∨ fromStr val = some x.val) := by
  unfold fromString
  cases hval : fromStr val with
  | none =>
    refine ⟨false, ⟨x, []⟩, rfl, iff_of_true (.inr ?_) (.inl rfl)⟩
    exact ⟨rfl, nofun, rfl⟩
  | some v =>
    by_cases hv : v = x.val
    · subst hv
      refine ⟨false, ⟨x, []⟩, ?_, iff_of_true (.inr ?_) (.inr rfl)⟩
      · dsimp only
        rw [setValue_of_eq throws ⟨x, []⟩]
      · exact ⟨rfl, nofun, rfl⟩
    · have hcond : ¬ (some v = none ∨ some v = some x.val) := by simp [hv]
      rcases setValue_of_ne throws hv with ⟨t, hset, hnew⟩ | ⟨t, n, hset, hn, hnew⟩
      · dsimp only
        rw [hset]
        refine ⟨false, t, rfl, iff_of_false ?_ hcond⟩
        rintro (⟨w, -, hadopted⟩ | hrefused)
        · cases hadopted.result
        · exact hv (hnew.symm.trans (by rw [hrefused.var]))
      · dsimp only
        rw [hset]
        refine ⟨false, t, rfl, iff_of_false ?_ hcond⟩
        rintro (⟨w, -, hadopted⟩ | hrefused)
        · cases hadopted.result
        · exact hv (hnew.symm.trans (hrefused.notices n hn))

/-- A variable with the value 1 and two listeners. -/
def twoListeners : ConfigVar Nat Unit := ⟨1, [(1, ()), (2, ())], by decide⟩

/-- A new value that every listener accepts is assigned while the call returns false. If the
second listener throws, both have been told a value that is not assigned. -/
theorem fromString_torn_twoListeners :
    (∃ t, fromString some (fun _ => false) 2 ⟨twoListeners, []⟩ = .ok false t ∧ t.var.val = 2) ∧
      ∃ t, fromString some (fun n => n.key = 2) 2 ⟨twoListeners, []⟩ = .ok false t ∧
        t.var.val = 1 ∧ t.notices = [⟨1, (), 1, 2⟩, ⟨2, (), 1, 2⟩] :=
  ⟨⟨_, rfl, rfl⟩, _, rfl, rfl, rfl⟩

end Xupeng.ConfigVar
