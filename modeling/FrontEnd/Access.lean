import FrontEnd.Scope.Declaration

/-!
# Access

How a use of a name reaches its value. A reference is a cell, whose value is reached through its
field `value`; a pointer, whether the use or the declaration says so, is used as it is.
-/

namespace FrontEnd

/-- How a use of a name reaches its value. -/
inductive Access where
  /-- The name is the value. -/
  | value
  /-- The name is a pointer and stays one. -/
  | pointer
  /-- The name is a cell that holds the value. -/
  | cell
  /-- The name has no declaration. -/
  | unresolved
deriving DecidableEq, Repr

namespace Access

/-- The name of an access. -/
def name : Access → String
  | value => "Value"
  | pointer => "Pointer"
  | cell => "Cell"
  | unresolved => "Unresolved"

/-- The access of a use, marked as a pointer or not, by the declaration it sees. -/
def classify (asPointer : Bool) : Option Declaration → Access
  | none => unresolved
  | some d =>
    if asPointer || d.isPointer then pointer
    else if d.isReference then cell
    else value

/-- The spelling of a use of a name. -/
def render (access : Access) (name : String) : String :=
  match access with
  | cell => name ++ ".value"
  | value | pointer | unresolved => name

/-- A use is unresolved exactly if it sees no declaration. -/
theorem classify_eq_unresolved_iff (asPointer : Bool) (d : Option Declaration) :
    classify asPointer d = unresolved ↔ d = none := by
  cases d with
  | none => simp [classify]
  | some d =>
    simp only [classify]
    split
    · simp
    · split <;> simp

end Access

end FrontEnd
