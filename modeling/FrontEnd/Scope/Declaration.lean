/-!
# Declarations
-/

namespace FrontEnd

/-- What a name was declared as. -/
inductive DeclarationKind where
  | var
  | param
  | func
  | enum
deriving DecidableEq, Repr

/-- What a declaration says about a name. -/
structure Declaration where
  name : String
  kind : DeclarationKind
  /-- The name stands for a pointer, which is used as it is. -/
  isPointer : Bool
  /-- The name stands for a cell that is shared with the caller. -/
  isReference : Bool
deriving DecidableEq, Repr

/-- The name of a kind of declaration. -/
def DeclarationKind.name : DeclarationKind → String
  | var => "Variable"
  | param => "Parameter"
  | func => "Function"
  | enum => "Enumeration"

end FrontEnd
