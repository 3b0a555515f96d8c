/-!
# Tables by name

A `Table` keeps its entries in the order in which their names were first entered. Entering a name
again replaces its value in place.
-/

namespace ArmStudio

/-- Values by name, in order of first entry. -/
structure Table (α : Type) where
  entries : List (String × α)
  deriving DecidableEq

namespace Table

variable {α : Type}

def empty : Table α := ⟨[]⟩

instance : Inhabited (Table α) := ⟨empty⟩

def findIn (name : String) : List (String × α) → Option α
  | [] => none
  | (key, value) :: rest => if key = name then some value else findIn name rest

def insertIn (name : String) (value : α) : List (String × α) → List (String × α)
  | [] => [(name, value)]
  | (key, old) :: rest =>
    if key = name then (key, value) :: rest else (key, old) :: insertIn name value rest

variable (t : Table α) (name : String)

def find? : Option α := findIn name t.entries

def contains : Bool := (t.find? name).isSome

def insert (value : α) : Table α := ⟨insertIn name value t.entries⟩

def modify (f : α → α) : Table α :=
  ⟨t.entries.map fun (key, value) => if key = name then (key, f value) else (key, value)⟩

def size : Nat := t.entries.length

def ofList (entries : List (String × α)) : Table α :=
  entries.foldl (fun t e => t.insert e.1 e.2) empty

end Table

end ArmStudio
