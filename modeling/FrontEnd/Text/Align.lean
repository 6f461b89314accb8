/-!
# Alignment

Texts padded with blanks to a least width, counted in code points. A text that is already as wide
is left alone.
-/

namespace FrontEnd.Text

/-- A run of `n` blanks. -/
def blanks (n : Nat) : String :=
  String.ofList (List.replicate n ' ')

/-- The text at the right end of a field of at least `width` code points. -/
def alignRight (width : Nat) (s : String) : String :=
  blanks (width - s.length) ++ s

/-- The text at the left end of a field of at least `width` code points. -/
def alignLeft (width : Nat) (s : String) : String :=
  s ++ blanks (width - s.length)

end FrontEnd.Text
