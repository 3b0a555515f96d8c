import ArmStudio.Table

/-!
# Labels

Labels have a place in the program, or none so far (-1). The counter numbers every creation, also
of a label that exists.
-/

namespace ArmStudio.Code

structure Labels where
  places : Table Int
  counter : Nat
  deriving DecidableEq

namespace Labels

def empty : Labels := ⟨.empty, 0⟩

instance : Inhabited Labels := ⟨empty⟩

def unplaced : Int := -1

variable (l : Labels) (name : String)

def create : Labels := ⟨l.places.insert name unplaced, l.counter + 1⟩

def place : Int := (l.places.find? name).getD unplaced

def setPlace? (place : Int) : Option Labels :=
  if l.places.contains name then some { l with places := l.places.insert name place } else none

end Labels

end ArmStudio.Code
