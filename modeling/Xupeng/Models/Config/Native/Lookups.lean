import Xupeng.Models.Config.Native.Lookup
import Xupeng.Models.Mutex.State

/-!
# Lookups of several threads

`Lookup` with a default constructs a guard, looks for the name, makes a variable if there
is none, and enters it. The guard is a `WriteLock`, whose constructor takes the lock for
reading, so that any number of threads can be in `Lookup` at a time.

A single operation on the map is one step here, although the library does not allow one
that changes the map beside another.
-/

namespace Xupeng.Config

variable {T : Type} {Val : T → Type}

/-- How far a thread is in `Lookup`. -/
inductive Looking (Val : T → Type)
  | outside
  /-- It has constructed the guard. -/
  | entered (name : List Char) (type : T) (default : Val type)
  /-- It has found no variable of the name, and the name is accepted. -/
  | making (name : List Char) (accepted : Accepted name) (type : T) (default : Val type)
  /-- It has a result, or throws, and the guard is about to be destroyed. -/
  | leaving

/-- The registry, its lock and the threads. -/
structure Lookups (Val : T → Type) where
  registry : Registry Val := {}
  mutex : Mutex.RWMutex := .init
  threads : Nat → Looking Val := fun _ => .outside

namespace Lookups

/-- What a thread does next. -/
inductive Step (Val : T → Type)
  | enter (t : Nat) (name : List Char) (type : T) (default : Val type)
  | look (t : Nat)
  | insert (t : Nat)
  | leave (t : Nat)

def goto (t : Nat) (pc : Looking Val) (s : Lookups Val) : Lookups Val :=
  { s with threads := Function.update s.threads t pc }

def step (s : Lookups Val) : Step Val → Option (Lookups Val)
  | .enter t name type default =>
    match s.threads t with
    | .outside =>
      (Mutex.WriteScopedLockImpl.construct s.mutex).map fun r =>
        { s with mutex := r.1 }.goto t (.entered name type default)
    | _ => none
  | .look t =>
    match s.threads t with
    | .entered name type default =>
      if (s.registry.datas.find name).isSome then some (s.goto t .leaving)
      else if h : Accepted name then some (s.goto t (.making name h type default))
      else some (s.goto t .leaving)
    | _ => none
  | .insert t =>
    match s.threads t with
    | .making name h type default =>
      some ({ s with registry := s.registry.register name h type default }.goto t .leaving)
    | _ => none
  | .leave t =>
    match s.threads t with
    | .leaving =>
      some ({ s with mutex := (Mutex.ScopedLock.unlock s.mutex t true).1 }.goto t .outside)
    | _ => none

/-- The name that a step looks for, with the type that it is looked up for. -/
def looks (s : Lookups Val) : Step Val → Option (List Char × T)
  | .look t =>
    match s.threads t with
    | .entered name type _ => some (name, type)
    | _ => none
  | _ => none

/-- The name under which a step enters a variable, with its type. -/
def makes (s : Lookups Val) : Step Val → Option (List Char × T)
  | .insert t =>
    match s.threads t with
    | .making name _ type _ => some (name, type)
    | _ => none
  | _ => none

end Lookups

end Xupeng.Config
