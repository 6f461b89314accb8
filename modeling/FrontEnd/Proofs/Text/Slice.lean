import FrontEnd.Span
import FrontEnd.Text.Bytes
import Mathlib.Data.String.Basic

/-!
# Slices of a source

The parts of a source are its slices: a part is what a span covers that begins behind the bytes
before the part and stops behind the bytes of the part (`Span.slice?_part`).
-/

namespace FrontEnd

namespace Text

/-- The length in bytes is that of the string. -/
lemma byteLength_eq (text : List Char) : byteLength text = (String.ofList text).utf8ByteSize := by
  rw [String.utf8ByteSize_ofList]
  induction text with
  | nil => rfl
  | cons c text ih => rw [byteLength, ih, String.utf8Len_cons, Nat.add_comm]

/-- The characters of a string have its length in bytes. -/
lemma byteLength_toList (source : String) : byteLength source.toList = source.utf8ByteSize := by
  rw [byteLength_eq, String.ofList_toList]

/-- The bytes of a beginning of a source stop at a boundary. -/
lemma isValid_byteLength {source : String} {before after}
    (h : source.toList = before ++ after) :
    String.Pos.Raw.IsValid source ⟨byteLength before⟩ := by
  refine String.Pos.Raw.isValid_iff_exists_append.mpr
    ⟨String.ofList before, String.ofList after, ?_, ?_⟩
  · rw [← String.ofList_append, ← h, String.ofList_toList]
  · rw [byteLength_eq]
    rfl

end Text

/-- A part of a source is the slice between the bytes before it and those up to its end. -/
lemma Span.slice?_part {source : String} {before part after}
    (h : source.toList = before ++ part ++ after) :
    Span.slice? ⟨Text.byteLength before, Text.byteLength (before ++ part)⟩ source =
      some (String.ofList part) := by
  have ordered : Text.byteLength before ≤ Text.byteLength (before ++ part) := by
    rw [Text.byteLength_append]
    exact Nat.le_add_right _ _
  have first := Text.isValid_byteLength (h.trans (List.append_assoc before part after))
  have second := Text.isValid_byteLength h
  rw [Span.slice?, if_pos ⟨ordered, first, second⟩]
  have e : source = String.ofList (before ++ part ++ after) := by rw [← h, String.ofList_toList]
  rw [e, Text.byteLength_append, Text.byteLength_eq, Text.byteLength_eq,
    String.utf8ByteSize_ofList, String.utf8ByteSize_ofList, String.extract_of_valid]

end FrontEnd
