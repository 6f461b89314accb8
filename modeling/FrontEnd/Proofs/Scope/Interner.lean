import Mathlib.Data.List.Basic
import Mathlib.Data.List.Induction
import Mathlib.Tactic.Common

/-!
# Interners

A pool of texts that gives each text a symbol of its own (`Interner`). It promises that symbols,
whenever they are given, are equal exactly for equal texts, and that a text has its symbol from the
time it is interned on (`Interner.Lawful`).

A pool that numbers its texts keeps these promises (`Interner.Lawful.numbering`).
-/

namespace FrontEnd

/-- A pool of texts that gives each of them a symbol. -/
structure Interner (Pool Symbol : Type) where
  empty : Pool
  /-- The symbol of a text, which is in the pool afterwards. -/
  intern : Pool → String → Symbol × Pool
  /-- The symbol of a text, if the text is in the pool. -/
  get? : Pool → String → Option Symbol

namespace Interner

variable {Pool Symbol : Type} {I : Interner Pool Symbol}

/-- The pool after some texts are interned. -/
def after (I : Interner Pool Symbol) (texts : List String) : Pool :=
  texts.foldl (fun pool text => (I.intern pool text).2) I.empty

/-- The symbol that a text gets after some texts are interned. -/
def symbol (I : Interner Pool Symbol) (texts : List String) (text : String) : Symbol :=
  (I.intern (I.after texts) text).1

/-- What a pool promises about its symbols. -/
structure Lawful (I : Interner Pool Symbol) : Prop where
  /-- Two texts get the same symbol, each at its own time, exactly if they are equal. -/
  symbol_eq_iff : ∀ earlier text between other,
    I.symbol (earlier ++ text :: between) other = I.symbol earlier text ↔ other = text
  /-- A text has the symbol that it got when it was interned, and none if it never was. -/
  get?_eq_some_iff : ∀ texts text k, I.get? (I.after texts) text = some k ↔
    ∃ earlier later, texts = earlier ++ text :: later ∧ I.symbol earlier text = k

/-- The text that is interned last comes on top of the others. -/
lemma after_snoc (I : Interner Pool Symbol) (texts : List String) (text : String) :
    I.after (texts ++ [text]) = (I.intern (I.after texts) text).2 := by
  rw [after, List.foldl_append]
  rfl

namespace Lawful

/-- A text that was just interned is found. -/
lemma get?_snoc (lw : I.Lawful) (texts : List String) (text : String) :
    I.get? (I.after (texts ++ [text])) text = some (I.symbol texts text) :=
  (lw.get?_eq_some_iff _ _ _).mpr ⟨texts, [], rfl, rfl⟩

/-- A text keeps its symbol. -/
lemma get?_of_get? (lw : I.Lawful) {texts text k} (h : I.get? (I.after texts) text = some k)
    (other : String) : I.get? (I.after (texts ++ [other])) text = some k := by
  obtain ⟨earlier, later, rfl, hk⟩ := (lw.get?_eq_some_iff _ _ _).mp h
  exact (lw.get?_eq_some_iff _ _ _).mpr ⟨earlier, later ++ [other], by simp, hk⟩

/-- Two texts in a pool have different symbols. -/
lemma eq_of_get? (lw : I.Lawful) {texts a b k} (ha : I.get? (I.after texts) a = some k)
    (hb : I.get? (I.after texts) b = some k) : a = b := by
  obtain ⟨before, _, cut, hka⟩ := (lw.get?_eq_some_iff _ _ _).mp ha
  obtain ⟨earlier, _, same, hkb⟩ := (lw.get?_eq_some_iff _ _ _).mp hb
  rw [cut] at same
  -- One of the two was interned first, if they were not interned at once.
  rcases List.append_eq_append_iff.mp same with ⟨between, rfl, tail⟩ | ⟨between, rfl, tail⟩
  · cases between with
    | nil => exact (List.cons_eq_cons.mp tail).1
    | cons c between =>
      obtain ⟨rfl, -⟩ := List.cons_eq_cons.mp tail
      exact ((lw.symbol_eq_iff before a between b).mp (hkb.trans hka.symm)).symm
  · cases between with
    | nil => exact (List.cons_eq_cons.mp tail).1.symm
    | cons c between =>
      obtain ⟨rfl, -⟩ := List.cons_eq_cons.mp tail
      exact (lw.symbol_eq_iff earlier b between a).mp (hka.trans hkb.symm)

end Lawful

/-! ## A pool that numbers its texts -/

/-- The pool that lists its texts in the order they came, and numbers them. -/
def numbering : Interner (List String) Nat where
  empty := []
  intern pool text := (pool.idxOf text, if text ∈ pool then pool else pool ++ [text])
  get? pool text := if text ∈ pool then some (pool.idxOf text) else none

/-- A numbering takes up a text only if it is new. -/
lemma after_numbering_snoc (texts : List String) (text : String) :
    numbering.after (texts ++ [text]) =
      if text ∈ numbering.after texts then numbering.after texts
      else numbering.after texts ++ [text] :=
  numbering.after_snoc texts text

/-- A numbering has the texts that were interned. -/
lemma mem_after_numbering {texts : List String} {text : String} :
    text ∈ numbering.after texts ↔ text ∈ texts := by
  induction texts using List.reverseRecOn with
  | nil => rfl
  | append_singleton texts last ih =>
    rw [after_numbering_snoc, List.mem_append, List.mem_singleton, ← ih]
    split
    · rename_i known
      exact (or_iff_left_of_imp fun e => e ▸ known).symm
    · rw [List.mem_append, List.mem_singleton]

/-- Texts go behind those that are there. -/
lemma after_numbering_append (texts more : List String) :
    ∃ tail, numbering.after (texts ++ more) = numbering.after texts ++ tail := by
  induction more using List.reverseRecOn with
  | nil => exact ⟨[], by simp⟩
  | append_singleton more last ih =>
    obtain ⟨tail, e⟩ := ih
    rw [← List.append_assoc, after_numbering_snoc, e]
    split
    · exact ⟨tail, rfl⟩
    · exact ⟨tail ++ [last], by rw [List.append_assoc]⟩

/-- A text gets the number that it has from then on. -/
lemma symbol_numbering (earlier later : List String) (text : String) :
    numbering.symbol earlier text = (numbering.after (earlier ++ text :: later)).idxOf text := by
  obtain ⟨tail, e⟩ := after_numbering_append (earlier ++ [text]) later
  have here : text ∈ numbering.after (earlier ++ [text]) := mem_after_numbering.mpr (by simp)
  have now : (numbering.after (earlier ++ [text])).idxOf text =
      (numbering.after earlier).idxOf text := by
    rw [after_numbering_snoc]
    split
    · rfl
    · rename_i new
      rw [List.idxOf_append_of_notMem new, List.idxOf_eq_length_iff.mpr new, List.idxOf_cons_self]
      rfl
  rw [List.append_cons, e, List.idxOf_append_of_mem here, now]
  rfl

/-- To number the texts in order is lawful. -/
lemma Lawful.numbering : Interner.numbering.Lawful := by
  constructor
  · intro earlier text between other
    let whole := earlier ++ text :: between ++ other :: []
    have ho : other ∈ Interner.numbering.after whole := mem_after_numbering.mpr (by simp [whole])
    have ht : Interner.numbering.symbol earlier text =
        (Interner.numbering.after whole).idxOf text := by
      rw [symbol_numbering earlier (between ++ [other]) text]
      simp [whole]
    rw [symbol_numbering _ [] other, ht]
    exact List.idxOf_inj ho
  · intro texts text k
    have found : Interner.numbering.get? (Interner.numbering.after texts) text = some k ↔
        text ∈ texts ∧ (Interner.numbering.after texts).idxOf text = k := by
      rw [← mem_after_numbering]
      exact Option.ite_none_right_eq_some.trans (and_congr_right' Option.some_inj)
    rw [found]
    constructor
    · rintro ⟨known, rfl⟩
      obtain ⟨earlier, later, rfl⟩ := List.append_of_mem known
      exact ⟨earlier, later, rfl, symbol_numbering earlier later text⟩
    · rintro ⟨earlier, later, rfl, rfl⟩
      exact ⟨by simp, (symbol_numbering earlier later text).symm⟩

end Interner

end FrontEnd
