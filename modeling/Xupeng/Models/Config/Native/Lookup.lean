import Xupeng.Models.Config.Native.LoadFromYaml

/-!
# The registry of variables

`Config::Lookup` with a default makes a variable unless there is one of the name;
`Lookup` without one only finds it. Both give a pointer of the type that the caller asks
for, which is null if the variable is of another type.

The calls are made one after the other here. Nothing in the source keeps those of different
threads apart: `WriteLock` takes the lock for reading, and `LookupBase` not at all.
-/

namespace Xupeng.Config

open Yaml

variable {T : Type} {Val : T → Type}

/-- `ConfigVar<T>`, where `Val type` are the values of a type -/
structure Variable (Val : T → Type) where
  m_name : List Char
  type : T
  m_val : Val type

/-- No variables. -/
def Datas.empty {V : Type} : Datas V where
  find _ := none
  accepted _ h := by cases h

/-- A new variable, under an accepted name. -/
def Datas.add {V : Type} (datas : Datas V) (name : List Char) (var : V) (h : Accepted name) :
    Datas V where
  find := Function.update datas.find name (some var)
  accepted other hother := by
    by_cases hname : other = name
    · exact hname ▸ h
    · rw [Function.update_of_ne hname] at hother
      exact datas.accepted other hother

/-- `GetDatas()`, and the variables at their addresses. -/
structure Registry (Val : T → Type) where
  datas : Datas Nat := .empty
  vars : List (Variable Val) := []

/-- What a call of `Lookup` comes to. -/
inductive Answer
  | pointer (p : Nat)
  | null
  /-- `std::invalid_argument` -/
  | throws
  deriving DecidableEq, Repr

namespace Registry

/-- `std::dynamic_pointer_cast<ConfigVar<T>>` -/
def cast [DecidableEq T] (type : T) (p : Nat) (s : Registry Val) : Answer :=
  if s.vars[p]?.any (·.type = type) then .pointer p else .null

/-- `Lookup(name)` -/
def find [DecidableEq T] (name : List Char) (type : T) (s : Registry Val) : Answer :=
  match s.datas.find name with
  | none => .null
  | some p => s.cast type p

/-- The new variable is entered, in place of another one if there is one. Its constructor puts the
name into lower case. -/
def register (name : List Char) (h : Accepted name) (type : T) (default : Val type)
    (s : Registry Val) : Registry Val where
  datas := s.datas.add name s.vars.length h
  vars := s.vars ++ [⟨lower name, type, default⟩]

/-- `Lookup(name, default_value)` -/
def lookup [DecidableEq T] (name : List Char) (type : T) (default : Val type)
    (s : Registry Val) : Answer × Registry Val :=
  match s.datas.find name with
  | some p => (s.cast type p, s)
  | none =>
    if h : Accepted name then (.pointer s.vars.length, s.register name h type default)
    else (.throws, s)

/-- `SetValue` or `fromString` on a variable: what it makes of the value. -/
def assign (p : Nat) (f : (type : T) → Val type → Val type) (s : Registry Val) : Registry Val :=
  { s with vars := s.vars.modify p fun var => { var with m_val := f var.type var.m_val } }

/-- `LoadFromYaml`, which gives each text to the variable that it is for. -/
def load (emit : Node → String) (fromString : String → (type : T) → Val type → Val type)
    (root : Node) (s : Registry Val) : Registry Val :=
  (loadFromYaml emit (fun _ p => p) root s.datas).calls.foldl
    (fun s call =>
      match s.datas.find call.1 with
      | some p => s.assign p (fromString call.2)
      | none => s) s

/-- The calls of the program. -/
inductive Call (Val : T → Type)
  | lookup (name : List Char) (type : T) (default : Val type)
  | find (name : List Char) (type : T)
  | setValue (p : Nat) (value : (type : T) → Val type)
  | load (root : Node)

/-- What the call returns, if it is a call of `Lookup`. -/
def answer [DecidableEq T] (s : Registry Val) : Call Val → Option (List Char × T × Answer)
  | .lookup name type default => some (name, type, (s.lookup name type default).1)
  | .find name type => some (name, type, s.find name type)
  | _ => none

def step [DecidableEq T] (emit : Node → String)
    (fromString : String → (type : T) → Val type → Val type) (s : Registry Val) :
    Call Val → Option (Registry Val)
  | .lookup name type default => some (s.lookup name type default).2
  | .find _ _ => some s
  | .setValue p value => some (s.assign p fun type _ => value type)
  | .load root => some (s.load emit fromString root)

end Registry

end Xupeng.Config
