import Mathlib.Data.List.Basic

/-!
# A configuration variable

`SetValue` has two sections. Under the read lock it compares the new value with `m_val`
and calls the listeners with both; under the write lock it assigns. In between the
variable is not locked, and the call is pending.

A listener is opaque here. Each is known by its key in `m_cbs`.
-/

namespace Xupeng

/-- `ConfigVar<T>` -/
structure ConfigVar (T L : Type) where
  val : T
  /-- `m_cbs` -/
  cbs : List (Nat × L)
  /-- The entries of a map are in the order of their keys. -/
  sorted : cbs.Pairwise (·.1 < ·.1)

/-- A call of a listener. -/
structure Notice (T L : Type) where
  key : Nat
  cb : L
  old_value : T
  new_value : T
  deriving DecidableEq, Repr

namespace ConfigVar

variable {T L : Type}

/-- The read-locked section of `SetValue`: the listeners that it calls, in order, or none if it
returns without a change. -/
def compare [DecidableEq T] (v : T) (x : ConfigVar T L) : Option (List (Notice T L)) :=
  if v = x.val then none else some (x.cbs.map fun i => ⟨i.1, i.2, x.val, v⟩)

/-- The write-locked section of `SetValue`. -/
def assign (v : T) (x : ConfigVar T L) : ConfigVar T L := { x with val := v }

/-- `AddListener`, with the count of all listeners so far; the key is returned. -/
def addListener (s_fun_id : Nat) (cb : L) (x : ConfigVar T L) : ConfigVar T L × Nat :=
  let key := s_fun_id + 1
  ({ x with
    cbs := x.cbs.filter (·.1 < key) ++ (key, cb) :: x.cbs.filter (key < ·.1)
    sorted := by
      refine List.pairwise_append.mpr ⟨x.sorted.filter _, List.pairwise_cons.mpr
        ⟨fun b hb => ?_, x.sorted.filter _⟩, fun a ha b hb => ?_⟩
      · simpa using (List.mem_filter.mp hb).2
      · have hlt : a.1 < key := by simpa using (List.mem_filter.mp ha).2
        rcases List.mem_cons.mp hb with rfl | hb
        · exact hlt
        · exact Nat.lt_trans hlt (by simpa using (List.mem_filter.mp hb).2) }, key)

/-- `DelListener` -/
def delListener (key : Nat) (x : ConfigVar T L) : ConfigVar T L :=
  { x with
    cbs := x.cbs.filter (·.1 ≠ key)
    sorted := x.sorted.filter _ }

/-- `GetListener` -/
def getListener (key : Nat) (x : ConfigVar T L) : Option L :=
  (x.cbs.find? (·.1 = key)).map (·.2)

/-- `ClearListener` -/
def clearListener (x : ConfigVar T L) : ConfigVar T L :=
  { x with
    cbs := []
    sorted := List.Pairwise.nil }

end ConfigVar

end Xupeng
