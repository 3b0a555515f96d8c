import ArmStudio.Table

/-!
# Scopes

Names are visible from the scope of their declaration inwards. A `Scopes` value is a global scope
and, innermost first, the scopes entered since.

* A name that is visible is not declared again, in any scope.
* `declareLocal` enters a name in the innermost scope and counts it; `declareGlobal` enters it in
  the global one and does not.
-/

namespace ArmStudio.Script

inductive ScopeError where
  | outermost
  deriving DecidableEq

def ScopeError.message : ScopeError → String
  | outermost => "Cannot exit global scope"

/-- The global scope, the inner ones innermost first, and the count of local declarations. -/
structure Scopes (α : Type) where
  outer : Table α
  inner : List (Table α)
  localCount : Nat

namespace Scopes

variable {α : Type}

def empty : Scopes α := ⟨.empty, [], 0⟩

instance : Inhabited (Scopes α) := ⟨empty⟩

def all (s : Scopes α) : List (Table α) := s.outer :: s.inner.reverse

def depth (s : Scopes α) : Nat := s.inner.length + 1

def enter (s : Scopes α) : Scopes α := { s with inner := .empty :: s.inner }

def exit (s : Scopes α) : Except ScopeError (Scopes α) :=
  match s.inner with
  | [] => .error .outermost
  | _ :: rest => .ok { s with inner := rest }

/-- Leaves the innermost scope, if there is one besides the global. -/
def leave (s : Scopes α) : Scopes α := { s with inner := s.inner.tail }

def findFirst (name : String) : List (Table α) → Option α
  | [] => none
  | t :: rest => (t.find? name).orElse fun _ => findFirst name rest

def lookup? (s : Scopes α) (name : String) : Option α := findFirst name (s.inner ++ [s.outer])

def isDefined (s : Scopes α) (name : String) : Bool := (s.lookup? name).isSome

def declareLocal (s : Scopes α) (name : String) (info : α) : Bool × Scopes α :=
  if s.isDefined name then (false, s)
  else match s.inner with
    | [] => (true, { s with outer := s.outer.insert name info, localCount := s.localCount + 1 })
    | t :: rest =>
      (true, { s with inner := t.insert name info :: rest, localCount := s.localCount + 1 })

def declareGlobal (s : Scopes α) (name : String) (info : α) : Bool × Scopes α :=
  if s.isDefined name then (false, s) else (true, { s with outer := s.outer.insert name info })

def modifyFirst (name : String) (f : α → α) : List (Table α) → List (Table α)
  | [] => []
  | t :: rest =>
    if t.contains name then t.modify name f :: rest else t :: modifyFirst name f rest

def modify (s : Scopes α) (name : String) (f : α → α) : Scopes α :=
  if s.inner.any (·.contains name) then { s with inner := modifyFirst name f s.inner }
  else { s with outer := s.outer.modify name f }

def scopeSize (s : Scopes α) : Nat :=
  match s.inner with
  | [] => s.outer.size
  | t :: _ => t.size

def resetCount (s : Scopes α) : Scopes α := { s with localCount := 0 }

end Scopes

end ArmStudio.Script
