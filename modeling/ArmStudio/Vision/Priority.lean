import ArmStudio.Script.Value

/-!
# Priorities of marks

Of several marks the one with the greatest number counts. It is held for a while: a lesser mark
does not displace it until the hold has run out.

* `Lock`, `Lock.update`, `Lock.holds`;
* `Security`: the marks that were seen with a sign of security, and those that were seen without.
-/

namespace ArmStudio.Vision

open Number Script

/-- The number held, if one is, and since when. -/
structure Lock where
  id : Option Int
  since : Value
  deriving DecidableEq

namespace Lock

def free : Lock := ⟨none, .int 0⟩

/-- How long a number is held, in seconds. -/
def duration : Double := 2

/-- How the time between two readings of the clock compares with a number of seconds. -/
def elapsed (start now : Value) (seconds : Double) : Option Ordering :=
  (now.sub start).toOption.bind fun passed => passed.order? (.real seconds)

/-- Holds the number of a mark seen at a time: the first one and each greater one. When another is
seen after the hold has run out, nothing is held. -/
def update (lock : Lock) (id : Int) (now : Value) : Lock :=
  match lock.id with
  | none => ⟨some id, now⟩
  | some held =>
    if held < id then ⟨some id, now⟩
    else if elapsed lock.since now duration = some .gt then free
    else lock

def holds (lock : Lock) (now : Value) : Bool :=
  lock.id.isSome && (elapsed lock.since now duration).any Ordering.isLE

end Lock

abbrev Security := List (Int × Bool)

namespace Security

def isSecure (table : Security) (id : Int) : Bool :=
  ((table.find? fun e => e.1 == id).map (·.2)).getD false

/-- Records a mark; once secure, it stays so. The table is kept in the order of the numbers. -/
def update (table : Security) (id : Int) (sign : Bool) : Security :=
  match table with
  | [] => [(id, sign)]
  | (key, value) :: rest =>
    if id < key then (id, sign) :: (key, value) :: rest
    else if id = key then (key, value || sign) :: rest
    else (key, value) :: update rest id sign

end Security

end ArmStudio.Vision
