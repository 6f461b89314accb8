/-!
# Bytes of a text

Sizes and places in a text, counted in the bytes of its UTF-8 form.
-/

namespace FrontEnd.Text

/-- The number of bytes of a text. -/
def byteLength : List Char → Nat
  | [] => 0
  | c :: text => c.utf8Size + byteLength text

/-- Splits a text in front of the character that starts at, or after, a byte offset. -/
def splitAtByte : Nat → List Char → List Char × List Char
  | _, [] => ([], [])
  | 0, text => ([], text)
  | n + 1, c :: text =>
    let (before, after) := splitAtByte (n + 1 - c.utf8Size) text
    (c :: before, after)

/-- The characters of a text, each with the offset of its first byte. -/
def charIndices : (offset : Nat) → List Char → List (Nat × Char)
  | _, [] => []
  | offset, c :: text => (offset, c) :: charIndices (offset + c.utf8Size) text

/-- The offset of the first character with a property. -/
def findIndex? (p : Char → Bool) (text : List Char) : Option Nat :=
  ((charIndices 0 text).find? fun x => p x.2).map Prod.fst

/-- A text has the bytes of its parts. -/
theorem byteLength_append (a b : List Char) :
    byteLength (a ++ b) = byteLength a + byteLength b := by
  induction a with
  | nil => simp [byteLength]
  | cons c a ih => simp [byteLength, ih, Nat.add_assoc]

end FrontEnd.Text
