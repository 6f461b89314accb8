import Mathlib.Data.String.Basic
import Mathlib.Tactic.Common

/-!
# The order of texts by bytes

Texts are compared by their characters. To compare them by the bytes of their UTF-8 form is the
same: of two characters the greater one has the greater bytes, at the first place where they differ.

Main statement: `Text.precedes_iff`.
-/

namespace FrontEnd.Text

/-- The bytes of a text in its UTF-8 form. -/
def bytes (s : String) : List UInt8 :=
  s.toByteArray.data.toList

/-- A text comes before another one, byte by byte. -/
def Precedes (s t : String) : Prop :=
  List.Lex (· < ·) (bytes s) (bytes t)

/-- The bytes of a text are those of its characters, one after the other. -/
lemma bytes_eq (s : String) : bytes s = s.toList.flatMap String.utf8EncodeChar := by
  have whole : s.toByteArray = s.toList.utf8Encode := by
    rw [← String.toByteArray_ofList, String.ofList_toList]
  rw [bytes, whole, List.utf8Encode, List.toList_data_toByteArray]

/-- A byte decides, or else what comes after it. -/
lemma lex_byte {a b : Nat} {r s : List UInt8} (hb : b < 256) (le : a ≤ b)
    (tail : a = b → List.Lex (· < ·) r s) :
    List.Lex (· < ·) (UInt8.ofNat a :: r) (UInt8.ofNat b :: s) := by
  rcases Nat.eq_or_lt_of_le le with rfl | lt
  · exact .cons (tail rfl)
  · apply List.Lex.rel
    rw [UInt8.lt_iff_toNat_lt, UInt8.toNat_ofNat', UInt8.toNat_ofNat']
    omega

/-- The bytes of two characters decide, whatever comes after them. -/
lemma lex_encode {c d : Char} (lt : c < d) (r s : List UInt8) :
    List.Lex (· < ·) (String.utf8EncodeChar c ++ r) (String.utf8EncodeChar d ++ s) := by
  have hv : c.val.toNat < d.val.toNat := UInt32.lt_iff_toNat_lt.mp lt
  have hw : d.val.toNat < 0xd800 ∨ 0xdfff < d.val.toNat ∧ d.val.toNat < 0x110000 := d.valid
  simp only [String.utf8EncodeChar]
  generalize c.val.toNat = v at hv ⊢
  generalize d.val.toNat = w at hv hw ⊢
  split_ifs
  -- The lesser character has no more bytes than the greater one.
  any_goals omega
  all_goals refine lex_byte (by omega) (by omega) fun _ => ?_
  -- With fewer bytes, or with one, it is decided by the first byte.
  any_goals omega
  · exact lex_byte (by omega) (by omega) fun _ => by omega
  · exact lex_byte (by omega) (by omega) fun _ =>
      lex_byte (by omega) (by omega) fun _ => by omega
  · exact lex_byte (by omega) (by omega) fun _ =>
      lex_byte (by omega) (by omega) fun _ =>
      lex_byte (by omega) (by omega) fun _ => by omega

/-- The order of characters carries over to bytes. -/
lemma lex_flatMap {a b : List Char} (lt : List.Lex (· < ·) a b) :
    List.Lex (· < ·) (a.flatMap String.utf8EncodeChar) (b.flatMap String.utf8EncodeChar) := by
  induction lt with
  | @nil c b =>
    rw [List.flatMap_cons]
    cases hc : String.utf8EncodeChar c with
    | nil => exact absurd hc String.utf8EncodeChar_ne_nil
    | cons byte rest => exact .nil
  | rel lt => exact lex_encode lt _ _
  | cons _ ih => exact .append_left _ ih _

/-- A smaller text comes before a greater one byte by byte. -/
lemma precedes_of_lt {s t : String} (lt : s < t) : Precedes s t := by
  rw [Precedes, bytes_eq, bytes_eq]
  exact lex_flatMap (String.lt_iff_toList_lt.mp lt)

/-- The order by bytes is the order by characters. -/
lemma precedes_iff {s t : String} : Precedes s t ↔ s < t := by
  refine ⟨fun pr => ?_, precedes_of_lt⟩
  by_contra ge
  rcases eq_or_lt_of_le (not_lt.mp ge) with rfl | gt
  · exact List.lt_irrefl _ pr
  · exact List.lt_asymm (precedes_of_lt gt) pr

end FrontEnd.Text
