import FrontEnd.Operator
import FrontEnd.Proofs.Lexicon.Inverse

/-!
# Operators and their kinds

A kind leads back to the first operator that has it. This is the only one as long as no operation
chooses a kind for the symbol of an operator: each of them keeps the kind of its own that the
standard lexicon gives it (`Lexicon.TellsApart`), whatever kinds other lexemes get. So an expression
is folded by the operator that its kind was taken from.

Main statement: `Lexicon.after_folds`.
-/

namespace FrontEnd

/-! ## Operators and their symbols -/

namespace Operator

/-- A search through all operators finds the only one of its kind. -/
lemma find?_all_eq_some_iff {p : Operator → Bool} (only : ∀ a b, p a → p b → a = b)
    {o : Operator} : all.find? p = some o ↔ p o := by
  constructor
  · exact List.find?_some
  · intro holds
    have found : (all.find? p).isSome := List.find?_isSome.mpr ⟨o, o.mem_all, holds⟩
    obtain ⟨first, h⟩ := Option.isSome_iff_exists.mp found
    have same : first = o := only first o (List.find?_some h) holds
    exact same ▸ h

/-- No two operators have one symbol. -/
lemma symbol_inj {a b : Operator} (h : a.symbol = b.symbol) : a = b := by
  have nodup : (all.map symbol).Nodup := by decide
  exact List.inj_on_of_nodup_map nodup a.mem_all b.mem_all h

/-- The operator of a symbol is the one that has it. -/
lemma ofSymbol?_eq_some_iff {s : String} {o : Operator} : ofSymbol? s = some o ↔ o.symbol = s := by
  have only : ∀ a b : Operator, decide (a.symbol = s) → decide (b.symbol = s) → a = b := by
    intro a b ha hb
    exact symbol_inj ((of_decide_eq_true ha).trans (of_decide_eq_true hb).symm)
  exact (find?_all_eq_some_iff only).trans decide_eq_true_iff

/-- An operator has the value that its symbol has. -/
lemma foldSymbol?_symbol (rule : ModuloRule) (x y : Float) (o : Operator) :
    foldSymbol? rule x y o.symbol = o.fold? rule x y := by
  rw [foldSymbol?, ofSymbol?_eq_some_iff.mpr rfl]
  rfl

/-- The symbols that have a value between two numbers. -/
def foldable : List String :=
  ["+", "-", "*", "/", ">", "<", "==", "%"]

/-- Every symbol that can be folded is that of an operator. -/
lemma exists_of_mem_foldable {s : String} (h : s ∈ foldable) : ∃ o : Operator, o.symbol = s := by
  have known : foldable ⊆ all.map symbol := by decide
  obtain ⟨o, _, e⟩ := List.mem_map.mp (known h)
  exact ⟨o, e⟩

/-- An operator can be folded exactly if its symbol is listed as such, whatever the numbers are. -/
lemma isSome_fold?_iff (rule : ModuloRule) (x y : Float) (o : Operator) :
    (o.fold? rule x y).isSome ↔ o.symbol ∈ foldable := by
  cases o with
  | modulo =>
    cases rule with
    | comparison => exact iff_of_true rfl (by decide)
    | remainder => exact iff_of_true rfl (by decide)
  | assign => exact iff_of_false nofun (by decide)
  | member => exact iff_of_false nofun (by decide)
  | _ => exact iff_of_true rfl (by decide)

end Operator

/-! ## Operators keep their kinds -/

namespace Lexicon

/-- A listed lexeme keeps its kind unless an operation chooses one for it. -/
lemma kindOf_perform_of_listed {lex : Lexicon} {op lexeme kind}
    (listed : lex.kindOf lexeme = some kind) (spared : ∀ k, op ≠ .insertWith lexeme k) :
    (lex.perform op).kindOf lexeme = some kind := by
  obtain ⟨_, rfl⟩ | e | ⟨other, given, as⟩ := lex.perform_cases op
  · exact listed
  · rw [e]
    exact listed
  · have ne : lexeme ≠ other := by
      intro same
      subst same
      cases as with
      | insert new _ => cases new.symm.trans listed
      | insertWith _ => exact spared given rfl
    rw [perform_of_assigns as, kindOf, kindIn_assign, if_neg ne]
    exact listed

/-- Every operator has a kind, and no two have the same. -/
structure TellsApart (lex : Lexicon) : Prop where
  listed (o : Operator) : ∃ kind, lex.kindOf o.symbol = some kind
  apart {a b : Operator} {kind} :
    lex.kindOf a.symbol = some kind → lex.kindOf b.symbol = some kind → a = b

namespace TellsApart

variable {lex : Lexicon}

/-- The standard lexicon gives every operator a kind of its own. -/
lemma standard : TellsApart .standard := by
  constructor
  · have all : ∀ o ∈ Operator.all, Lexicon.standard.contains o.symbol := by decide +kernel
    exact fun o => Option.isSome_iff_exists.mp (all o o.mem_all)
  · intro a b kind ha hb
    exact Operator.symbol_inj (Injective.standard _ _ _ ha hb)

/-- An operation that does not choose the kind of an operator keeps them apart. -/
lemma perform (ta : lex.TellsApart) {op : Operation}
    (spared : ∀ (o : Operator) k, op ≠ .insertWith o.symbol k) : (lex.perform op).TellsApart := by
  have keeps : ∀ o : Operator, (lex.perform op).kindOf o.symbol = lex.kindOf o.symbol := by
    intro o
    obtain ⟨kind, listed⟩ := ta.listed o
    exact (kindOf_perform_of_listed listed (spared o)).trans listed.symm
  constructor
  · intro o
    rw [keeps]
    exact ta.listed o
  · intro a b kind
    rw [keeps, keeps]
    exact ta.apart

/-- So does a run of such operations. -/
lemma after (ta : lex.TellsApart) {ops : List Operation}
    (spared : ∀ (o : Operator) k, .insertWith o.symbol k ∉ ops) : (lex.after ops).TellsApart := by
  induction ops generalizing lex with
  | nil => exact ta
  | cons op ops ih =>
    apply ih
    · apply ta.perform
      intro o k e
      exact spared o k (e ▸ List.mem_cons_self)
    · exact fun o k later => spared o k (List.mem_cons_of_mem _ later)

/-- A kind leads back to the operator that has it. -/
lemma operatorOf?_eq_some_iff (ta : lex.TellsApart) {kind : TokenKind} {o : Operator} :
    lex.operatorOf? kind = some o ↔ lex.kindOf o.symbol = some kind := by
  have only : ∀ a b : Operator, decide (lex.kindOf a.symbol = some kind) →
      decide (lex.kindOf b.symbol = some kind) → a = b := by
    intro a b ha hb
    exact ta.apart (of_decide_eq_true ha) (of_decide_eq_true hb)
  exact (Operator.find?_all_eq_some_iff only).trans decide_eq_true_iff

end TellsApart

end Lexicon

/-! ## Folded expressions -/

/-- A binary expression between two literals that stand for numbers. -/
inductive Expr.Between (x y : Float) (kind : TokenKind) : Expr → Prop where
  | literals {left right place place' span} :
    left.number? = some x →
    right.number? = some y →
    Between x y kind (.binary (.literal left place) kind (.literal right place') span)

namespace Lexicon

/-- Between two numbers, the operator of the kind decides. -/
lemma foldExpr?_of_between (lex : Lexicon) (rule : ModuloRule) {e : Expr} {x y kind}
    (bt : e.Between x y kind) :
    lex.foldExpr? rule e = (lex.operatorOf? kind).bind fun o => o.fold? rule x y := by
  cases bt with
  | literals hx hy =>
    rw [foldExpr?, hx, hy]
    rfl

/-- Nothing else is folded. -/
lemma between_of_foldExpr? {lex : Lexicon} {rule : ModuloRule} {e : Expr}
    (h : (lex.foldExpr? rule e).isSome) : ∃ x y kind, e.Between x y kind := by
  unfold foldExpr? at h
  split at h
  · rename_i left _ kind right _ _
    cases hx : left.number? with
    | none => simp [hx] at h
    | some x =>
      cases hy : right.number? with
      | none => simp [hy] at h
      | some y => exact ⟨x, y, kind, .literals hx hy⟩
  · cases h

/-- An expression has the value that the symbol of its kind has. -/
lemma TellsApart.foldExpr?_eq {lex : Lexicon} (ta : lex.TellsApart) (rule : ModuloRule) {e : Expr}
    {x y kind} (bt : e.Between x y kind) {o : Operator} (hk : lex.kindOf o.symbol = some kind) :
    lex.foldExpr? rule e = Operator.foldSymbol? rule x y o.symbol := by
  rw [lex.foldExpr?_of_between rule bt, ta.operatorOf?_eq_some_iff.mpr hk,
    Operator.foldSymbol?_symbol]
  rfl

/-- An expression can be folded exactly if it stands between two numbers with an operator that can
be. -/
lemma TellsApart.isSome_foldExpr?_iff {lex : Lexicon} (ta : lex.TellsApart) (rule : ModuloRule)
    (e : Expr) : (lex.foldExpr? rule e).isSome ↔ ∃ x y kind, e.Between x y kind ∧
      ∃ symbol ∈ Operator.foldable, lex.kindOf symbol = some kind := by
  constructor
  · intro h
    obtain ⟨x, y, kind, bt⟩ := between_of_foldExpr? h
    rw [lex.foldExpr?_of_between rule bt] at h
    cases ho : lex.operatorOf? kind with
    | none =>
      rw [ho] at h
      cases h
    | some o =>
      rw [ho] at h
      have folds : o.symbol ∈ Operator.foldable := (Operator.isSome_fold?_iff rule x y o).mp h
      exact ⟨x, y, kind, bt, o.symbol, folds, ta.operatorOf?_eq_some_iff.mp ho⟩
  · rintro ⟨x, y, kind, bt, symbol, folds, hk⟩
    obtain ⟨o, rfl⟩ := Operator.exists_of_mem_foldable folds
    rw [ta.foldExpr?_eq rule bt hk, Operator.foldSymbol?_symbol]
    exact (Operator.isSome_fold?_iff rule x y o).mpr folds

/-- Let no operation choose a kind for the symbol of an operator, be it that other lexemes get the
kinds of operators. Then the kind of a symbol leads back to it, and a kind that no operator has to
none. An expression is folded exactly if it is between two numbers and its kind is that of a symbol
which has a value, and it has the value that its symbol has between these numbers. -/
theorem after_folds {ops : List Operation}
    (spared : ∀ (o : Operator) kind, .insertWith o.symbol kind ∉ ops) :
    let lex := standard.after ops
    (∀ kind symbol, (lex.operatorOf? kind).map Operator.symbol = some symbol ↔
      symbol ∈ Operator.all.map Operator.symbol ∧ lex.kindOf symbol = some kind) ∧
    (∀ kind, lex.operatorOf? kind = none ↔
      ∀ symbol ∈ Operator.all.map Operator.symbol, lex.kindOf symbol ≠ some kind) ∧
    (∀ rule e, (lex.foldExpr? rule e).isSome ↔ ∃ x y kind, e.Between x y kind ∧
      ∃ symbol ∈ Operator.foldable, lex.kindOf symbol = some kind) ∧
    ∀ rule e x y kind symbol, e.Between x y kind →
      symbol ∈ Operator.foldable → lex.kindOf symbol = some kind →
        lex.foldExpr? rule e = Operator.foldSymbol? rule x y symbol := by
  intro lex
  have ta : lex.TellsApart := TellsApart.standard.after spared
  refine ⟨fun kind symbol => ⟨fun h => ?_, fun h => ?_⟩, fun kind => ?_, ta.isSome_foldExpr?_iff,
    fun rule e x y kind symbol bt folds hk => ?_⟩
  · obtain ⟨o, ho, rfl⟩ := Option.map_eq_some_iff.mp h
    exact ⟨List.mem_map_of_mem o.mem_all, ta.operatorOf?_eq_some_iff.mp ho⟩
  · obtain ⟨hs, hk⟩ := h
    obtain ⟨o, _, rfl⟩ := List.mem_map.mp hs
    exact Option.map_eq_some_iff.mpr ⟨o, ta.operatorOf?_eq_some_iff.mpr hk, rfl⟩
  · rw [operatorOf?_eq_none_iff, List.forall_mem_map]
    exact ⟨fun none o _ => none o, fun none o => none o o.mem_all⟩
  · obtain ⟨o, rfl⟩ := Operator.exists_of_mem_foldable folds
    exact ta.foldExpr?_eq rule bt hk

end Lexicon

/-- A listed symbol is entered again, its kind is dropped and given to a word, and the greatest kind
to another one. -/
def colliding : List Lexicon.Operation :=
  [.insert "+", .ignore ⟨29⟩, .insertWith "plus" ⟨29⟩, .insertWith "last" ⟨65535⟩]

/-- The word has the kind of the symbol, but the kind leads back to the symbol. Two numbers with
this kind between them are added. -/
theorem colliding_after_folds :
    let lex := Lexicon.standard.after colliding
    let two : Literal := ⟨.number, "2"⟩
    let half : Literal := ⟨.number, "-.5"⟩
    (∀ (o : Operator) kind, .insertWith o.symbol kind ∉ colliding) ∧
    lex.kindOf "plus" = some ⟨29⟩ ∧ lex.kindOf "+" = some ⟨29⟩ ∧
    (lex.operatorOf? ⟨29⟩).map Operator.symbol = some "+" ∧
    ∃ x y, two.number? = some x ∧ half.number? = some y ∧
      lex.foldExpr? .comparison (.ofBinary (.literal two ⟨0, 1⟩) ⟨29⟩ (.literal half ⟨4, 7⟩)) =
        some (.number (x + y)) := by
  intro lex two half
  have spared : ∀ (o : Operator) kind, .insertWith o.symbol kind ∉ colliding := by
    intro o kind
    cases o <;> simp [colliding, Operator.symbol]
  -- One evaluation for both facts, since each would build the listing anew.
  have facts : lex.kindOf "plus" = some ⟨29⟩ ∧ lex.kindOf "+" = some ⟨29⟩ := by decide +kernel
  obtain ⟨word, sign⟩ := facts
  obtain ⟨x, hx⟩ : ∃ x, two.number? = some x := Option.isSome_iff_exists.mp (by decide +kernel)
  obtain ⟨y, hy⟩ : ∃ y, half.number? = some y := Option.isSome_iff_exists.mp (by decide +kernel)
  obtain ⟨back, -, -, folds⟩ := Lexicon.after_folds spared
  refine ⟨spared, word, sign, (back _ _).mpr ⟨by decide, sign⟩, x, y, hx, hy, ?_⟩
  exact folds .comparison _ x y _ "+" (.literals hx hy) (by decide) sign

end FrontEnd
