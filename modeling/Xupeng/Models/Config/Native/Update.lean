import Xupeng.Core.Program
import Xupeng.Models.Config.Native.ConfigVar

/-!
# `fromString`

A call of `fromString` on a variable that no other thread touches, with the listeners that
it has called. A listener may throw; the converter throws where it has no value. What is
thrown in `SetValue` is caught in `fromString`, which returns false either way.
-/

namespace Xupeng.ConfigVar

variable {Text T L : Type}

/-- A variable and the calls of its listeners. -/
structure Heard (T L : Type) where
  var : ConfigVar T L
  notices : List (Notice T L)

/-- `i.second(m_val, v)` -/
def notify (throws : Notice T L → Bool) (n : Notice T L) : Program Unit (Heard T L) Unit :=
  fun s =>
    let t : Heard T L := { s with notices := s.notices ++ [n] }
    if throws n then .throw () t else .ok () t

/-- The loop over `m_cbs`. -/
def notifyAll (throws : Notice T L → Bool) : List (Notice T L) → Program Unit (Heard T L) Unit
  | [] => pure ()
  | n :: ns => do
    notify throws n
    notifyAll throws ns

/-- `SetValue` -/
def setValue [DecidableEq T] (throws : Notice T L → Bool) (v : T) :
    Program Unit (Heard T L) Unit := fun s =>
  match s.var.compare v with
  | none => .ok () s
  | some notices =>
    match notifyAll throws notices s with
    | .ok _ t => .ok () { t with var := t.var.assign v }
    | stopped => stopped

/-- `fromString`, where the converter `FromStr` may throw. -/
def fromString [DecidableEq T] (fromStr : Text → Option T) (throws : Notice T L → Bool)
    (val : Text) : Program Empty (Heard T L) Bool := fun s =>
  match fromStr val with
  | none => .ok false s
  | some v =>
    match setValue throws v s with
    | .ok _ t => .ok false t
    | .throw _ t => .ok false t
    | .fault => .fault

end Xupeng.ConfigVar
