import FrontEnd.Proofs.Scope.Interner
import FrontEnd.Proofs.Scope.Operations
import Mathlib.Data.List.Find

/-!
# Scopes with interned names

Declarations may be kept under the symbols of their names (`InternedTree`). All scopes share one
pool of names, it keeps every name that was ever asked for, and a name that it does not have is
declared nowhere. Whatever the symbols are, a tree of this kind
answers as one that goes by names (`InternedTree.Represents`), after any run of operations.

Main statement: `ScopeTree.after_refines`, a scope tree is a map from a scope and a name to the
first declaration asked for, and stays one if its names are interned.
-/

namespace FrontEnd

/-! ## Trees that go by symbols -/

/-- The scopes of a program with their declarations in a table, under the symbols of their names. -/
structure InternedTree {Pool Symbol : Type} (I : Interner Pool Symbol) where
  pool : Pool
  /-- The scopes, without declarations. -/
  scopes : ScopeTree
  table : List (ScopeId × Symbol × Declaration)

namespace InternedTree

variable {Pool Symbol : Type} [DecidableEq Symbol] {I : Interner Pool Symbol}

/-- The tree with the root alone. -/
def empty (I : Interner Pool Symbol) : InternedTree I :=
  ⟨I.empty, .empty, []⟩

/-- The declaration under a symbol in a scope itself. -/
def find? (a : InternedTree I) (k : Symbol) (s : ScopeId) : Option Declaration :=
  (a.table.find? fun entry => entry.1 = s ∧ entry.2.1 = k).map fun entry => entry.2.2

/-- The declaration of a name in a scope itself. -/
def declared? (a : InternedTree I) (s : ScopeId) (name : String) : Option Declaration :=
  (I.get? a.pool name).bind fun k => a.find? k s

/-- The innermost declaration of a name on the way outward. -/
def lookup? (a : InternedTree I) (s : ScopeId) (name : String) : Option Declaration :=
  (I.get? a.pool name).bind fun k => (a.scopes.chain s).findSome? (a.find? k)

/-- The number of declarations of a scope. -/
def count (a : InternedTree I) (s : ScopeId) : Nat :=
  a.table.countP fun entry => entry.1 = s

/-- The symbol that a name gets. -/
def symbol (a : InternedTree I) (name : String) : Symbol :=
  (I.intern a.pool name).1

/-- The tree with a name interned. -/
def intern (a : InternedTree I) (name : String) : InternedTree I :=
  { a with pool := (I.intern a.pool name).2 }

/-- Declares a name in a scope, where it must be new. The name is interned in any case. -/
def define (a : InternedTree I) (s : ScopeId) (d : Declaration) :
    Option ScopeError × InternedTree I :=
  match a.find? (a.symbol d.name) s with
  | some _ => (some (.alreadyDefined d.name), a.intern d.name)
  | none => (none, { a.intern d.name with table := a.table ++ [(s, a.symbol d.name, d)] })

/-- Declares a name in a scope unless it is declared there, and says whether it did. -/
def bind (a : InternedTree I) (s : ScopeId) (d : Declaration) : Bool × InternedTree I :=
  ((a.define s d).1.isNone, (a.define s d).2)

/-- The tree after an operation. -/
def perform (a : InternedTree I) : ScopeTree.Operation → InternedTree I
  | .openScope parent kind => { a with scopes := (a.scopes.openScope parent kind).2 }
  | .openFunction parent returns => { a with scopes := (a.scopes.openFunction parent returns).2 }
  | .define s d => (a.define s d).2
  | .bind s d => (a.bind s d).2

/-- The tree after some operations, one after the other. -/
def after (a : InternedTree I) (ops : List ScopeTree.Operation) : InternedTree I :=
  ops.foldl perform a

end InternedTree

/-! ## The two kinds of trees -/

namespace ScopeTree

/-- The scopes of a tree without their declarations. -/
def unnamed (t : ScopeTree) : ScopeTree :=
  ⟨t.scopes.map fun scope => { scope with symbols := [] }⟩

/-- The ways outward do not depend on declarations. -/
lemma chain_unnamed (t : ScopeTree) (s : ScopeId) : t.unnamed.chain s = t.chain s := by
  unfold chain enclosing get? unnamed
  rw [List.getElem?_map]
  cases t.scopes[s.index]? <;> rfl

/-- A new scope has no declarations to leave out. -/
lemma unnamed_openWith (t : ScopeTree) (parent : ScopeId) (kind : ScopeKind)
    (returns : List ReturnSlot) :
    (t.openWith parent kind returns).2.unnamed = (t.unnamed.openWith parent kind returns).2 := by
  have way := t.chain_unnamed parent
  unfold openWith
  rw [way]
  simp [unnamed]

/-- A new declaration is left out. -/
lemma unnamed_bind (t : ScopeTree) (s : ScopeId) (d : Declaration) :
    (t.bind s d).2.unnamed = t.unnamed := by
  cases h : t.declared? s d.name with
  | some old => rw [bind_of_some h]
  | none =>
    have added : (t.bind s d).2 = ⟨t.scopes.modify s.index (·.add d)⟩ := by
      rw [bind, define, h]
    rw [added]
    unfold unnamed
    congr 1
    apply List.ext_getElem?
    intro i
    rw [List.getElem?_map, List.getElem?_map, List.getElem?_modify]
    cases t.scopes[i]? with
    | none => rfl
    | some scope =>
      simp only [Option.map_eq_map, Option.map_some]
      split <;> rfl

end ScopeTree

namespace InternedTree

variable {Pool Symbol : Type} {I : Interner Pool Symbol}

/-- A tree that goes by symbols and one that goes by names, with the names that were interned. -/
structure Represents (a : InternedTree I) (t : ScopeTree) (texts : List String) : Prop where
  pool : a.pool = I.after texts
  scopes : a.scopes = t.unnamed
  /-- Both have the same declarations in a scope, in the same order. -/
  declarations : ∀ s, (a.table.filter fun entry => entry.1 = s).map (fun entry => entry.2.2) =
    t.declarations s
  /-- Every declaration stands under the symbol of its name. -/
  keys : ∀ entry ∈ a.table, I.get? a.pool entry.2.2.name = some entry.2.1

namespace Represents

variable {a : InternedTree I} {t : ScopeTree} {texts : List String}

/-- The two empty trees go together. -/
lemma empty : (InternedTree.empty I).Represents .empty [] :=
  ⟨rfl, rfl, fun s => (ScopeTree.declarations_empty s).symm, nofun⟩

/-- One more name in the pool makes no difference. -/
lemma intern (rp : a.Represents t texts) (lw : I.Lawful) (name : String) :
    (a.intern name).Represents t (texts ++ [name]) := by
  have pool : (a.intern name).pool = I.after (texts ++ [name]) := by
    rw [I.after_snoc, ← rp.pool]
    rfl
  refine ⟨pool, rp.scopes, rp.declarations, fun entry he => ?_⟩
  have hk := rp.keys entry he
  rw [rp.pool] at hk
  rw [pool]
  exact lw.get?_of_get? hk name

/-- A name without a symbol is declared nowhere. -/
lemma declared?_of_get? (rp : a.Represents t texts) {name} (h : I.get? a.pool name = none)
    (s : ScopeId) : t.declared? s name = none := by
  rw [t.declared?_eq_find?, ← rp.declarations s, List.find?_eq_none]
  intro d hd
  obtain ⟨entry, he, rfl⟩ := List.mem_map.mp hd
  have hk := rp.keys entry (List.mem_of_mem_filter he)
  intro e
  rw [of_decide_eq_true e, h] at hk
  cases hk

/-- A name that is interned has the symbol that it gets. -/
lemma get?_intern (rp : a.Represents t texts) (lw : I.Lawful) (name : String) :
    I.get? (a.intern name).pool name = some (a.symbol name) := by
  rw [(rp.intern lw name).pool, lw.get?_snoc, Interner.symbol, symbol, rp.pool]

/-- Both trees count the same declarations. -/
lemma count_eq (rp : a.Represents t texts) (s : ScopeId) : a.count s = t.count s := by
  rw [count, ScopeTree.count, ← rp.declarations s, List.length_map, List.countP_eq_length_filter]

variable [DecidableEq Symbol]

/-- The symbol of a name finds what the name does. -/
lemma find?_eq (rp : a.Represents t texts) (lw : I.Lawful) {name k}
    (h : I.get? a.pool name = some k) (s : ScopeId) : a.find? k s = t.declared? s name := by
  have same : ∀ entry ∈ a.table, decide (entry.1 = s ∧ entry.2.1 = k) =
      decide (entry.1 = s ∧ entry.2.2.name = name) := by
    intro entry he
    have hk := rp.keys entry he
    refine decide_eq_decide.mpr (and_congr_right fun _ => ⟨fun e => ?_, fun e => ?_⟩)
    · rw [rp.pool] at h hk
      exact lw.eq_of_get? (e ▸ hk) h
    · rw [e, h] at hk
      exact (Option.some.inj hk).symm
  rw [t.declared?_eq_find?, ← rp.declarations s, find?, List.find?_congr same, List.find?_map,
    List.find?_filter]
  simp only [decide_eq_true_eq, Function.comp_apply]

/-- Both trees find the same declarations in a scope. -/
lemma declared?_eq (rp : a.Represents t texts) (lw : I.Lawful) (s : ScopeId) (name : String) :
    a.declared? s name = t.declared? s name := by
  unfold declared?
  cases h : I.get? a.pool name with
  | none => exact (rp.declared?_of_get? h s).symm
  | some k => exact rp.find?_eq lw h s

/-- Both trees find the same declarations from a scope outward. -/
lemma lookup?_eq (rp : a.Represents t texts) (lw : I.Lawful) (s : ScopeId) (name : String) :
    a.lookup? s name = t.lookup? s name := by
  unfold lookup? ScopeTree.lookup?
  cases h : I.get? a.pool name with
  | none => exact (List.findSome?_eq_none_iff.mpr fun r _ => rp.declared?_of_get? h r).symm
  | some k =>
    rw [rp.scopes, t.chain_unnamed]
    exact congrArg (List.findSome? · _) (funext (rp.find?_eq lw h))

/-- A name that is about to be declared is looked for under the symbol that it gets. -/
lemma find?_symbol (rp : a.Represents t texts) (lw : I.Lawful) (s : ScopeId) (name : String) :
    a.find? (a.symbol name) s = t.declared? s name :=
  (rp.intern lw name).find?_eq lw (rp.get?_intern lw name) s

/-- A name that is declared is refused, but interned. -/
lemma define_of_some (rp : a.Represents t texts) (lw : I.Lawful) {s d old}
    (h : t.declared? s d.name = some old) :
    a.define s d = (some (.alreadyDefined d.name), a.intern d.name) := by
  rw [InternedTree.define, rp.find?_symbol lw, h]

/-- A name that is not declared in a scope is entered under its symbol. -/
lemma define_of_none (rp : a.Represents t texts) (lw : I.Lawful) {s d}
    (h : t.declared? s d.name = none) :
    a.define s d =
      (none, { a.intern d.name with table := a.table ++ [(s, a.symbol d.name, d)] }) := by
  rw [InternedTree.define, rp.find?_symbol lw, h]

/-- Both trees refuse the same definitions, with the same error. -/
lemma define_eq_some_iff (rp : a.Represents t texts) (lw : I.Lawful) {s d e} :
    (a.define s d).1 = some e ↔ t.define s d = .error e := by
  cases h : t.declared? s d.name with
  | some old => simp [rp.define_of_some lw h, ScopeTree.define, h]
  | none => simp [rp.define_of_none lw h, ScopeTree.define, h]

/-- Both trees take the same declarations for new ones. -/
lemma bind_eq (rp : a.Represents t texts) (lw : I.Lawful) (s : ScopeId) (d : Declaration) :
    (a.bind s d).1 = (t.bind s d).1 := by
  rw [InternedTree.bind]
  cases h : t.declared? s d.name with
  | some old =>
    rw [rp.define_of_some lw h, ScopeTree.bind_of_some h]
    rfl
  | none =>
    obtain ⟨extended, -, e⟩ := ScopeTree.bind_of_none h
    rw [rp.define_of_none lw h, e]
    rfl

/-- A declaration that both trees take or refuse. -/
lemma define (rp : a.Represents t texts) (lw : I.Lawful) {s d} (inside : s.index < t.size) :
    (a.define s d).2.Represents (t.bind s d).2 (texts ++ [d.name]) := by
  have interned := rp.intern lw d.name
  cases h : t.declared? s d.name with
  | some old =>
    rw [rp.define_of_some lw h, ScopeTree.bind_of_some h]
    exact interned
  | none =>
    rw [rp.define_of_none lw h]
    refine ⟨interned.pool, interned.scopes.trans (t.unnamed_bind s d).symm, fun r => ?_, ?_⟩
    · rw [ScopeTree.declarations_bind inside h, List.filter_append, List.map_append,
        rp.declarations r]
      by_cases here : r = s
      · subst r
        simp
      · simp [here, Ne.symm here]
    · intro entry he
      rcases List.mem_append.mp he with old | new
      · exact interned.keys entry old
      · obtain rfl := List.mem_singleton.mp new
        exact rp.get?_intern lw d.name

/-- An operation on both trees leaves them together. -/
lemma perform (rp : a.Represents t texts) (lw : I.Lawful) {op : ScopeTree.Operation}
    (inside : op.scope.index < t.size) :
    ∃ more, (a.perform op).Represents (t.perform op) more := by
  cases op with
  | openScope parent kind =>
    refine ⟨texts, rp.pool, ?_, fun s => ?_, rp.keys⟩
    · exact (congrArg (fun scopes => (scopes.openScope parent kind).2) rp.scopes).trans
        (t.unnamed_openWith parent kind []).symm
    · exact (rp.declarations s).trans (t.declarations_openWith parent kind [] s).symm
  | openFunction parent returns =>
    refine ⟨texts, rp.pool, ?_, fun s => ?_, rp.keys⟩
    · exact (congrArg (fun scopes => (scopes.openFunction parent returns).2) rp.scopes).trans
        (t.unnamed_openWith parent .function returns).symm
    · exact (rp.declarations s).trans (t.declarations_openWith parent .function returns s).symm
  | define s d =>
    rw [ScopeTree.perform_define]
    exact ⟨_, rp.define lw inside⟩
  | bind s d => exact ⟨_, rp.define lw inside⟩

/-- The two kinds of trees go together through any run. -/
lemma after (rp : a.Represents t texts) (lw : I.Lawful) {ops : List ScopeTree.Operation}
    (issued : t.Issued ops) : ∃ more, (a.after ops).Represents (t.after ops) more := by
  induction ops generalizing a t texts with
  | nil => exact ⟨texts, rp⟩
  | cons op ops ih =>
    obtain ⟨more, rp⟩ := rp.perform lw issued.1
    exact ih rp issued.2

end Represents

/-- A tree that goes by symbols and one that goes by names, with the same answers to everything. -/
structure Agrees (a : InternedTree I) [DecidableEq Symbol] (t : ScopeTree) : Prop where
  scopes : a.scopes = t.unnamed
  declared? : ∀ s name, a.declared? s name = t.declared? s name
  lookup? : ∀ s name, a.lookup? s name = t.lookup? s name
  count : ∀ s, a.count s = t.count s
  define : ∀ s d e, (a.define s d).1 = some e ↔ t.define s d = .error e
  bind : ∀ s d, (a.bind s d).1 = (t.bind s d).1

/-- Trees that go together give the same answers. -/
lemma Represents.agrees {a : InternedTree I} [DecidableEq Symbol] {t : ScopeTree} {texts}
    (rp : a.Represents t texts) (lw : I.Lawful) : a.Agrees t :=
  ⟨rp.scopes, rp.declared?_eq lw, rp.lookup?_eq lw, rp.count_eq,
    fun _ _ _ => rp.define_eq_some_iff lw, rp.bind_eq lw⟩

end InternedTree

/-- After any run of operations a scope declares a name as the first operation about it asked, for
good. An operation about a name is refused exactly if there was an earlier one, and then nothing
depends on it. A scope counts its names, and a lookup gives the first declaration on the walk to the
root. All answers are the same if names are interned. -/
theorem ScopeTree.after_refines {Pool Symbol : Type} [DecidableEq Symbol]
    {I : Interner Pool Symbol} (lawful : I.Lawful) {ops : List Operation}
    (issued : empty.Issued ops) :
    (∀ s name, (empty.after ops).declared? s name = first? ops s name) ∧
    (∀ s name d more, empty.Issued (ops ++ more) →
      (empty.after ops).declared? s name = some d →
      (empty.after (ops ++ more)).declared? s name = some d) ∧
    (∀ s d,
      ((∃ e, (empty.after ops).define s d = .error e) ↔ (first? ops s d.name).isSome) ∧
      (((empty.after ops).bind s d).1 = true ↔ first? ops s d.name = none) ∧
      ((first? ops s d.name).isSome → ∀ op more, op.request? = some (s, d) →
        empty.after (ops ++ op :: more) = empty.after (ops ++ more))) ∧
    (∀ s, (empty.after ops).count s = (namesIn ops s).dedup.length) ∧
    (∀ s name, s.index < (empty.after ops).size → ∃ way, (empty.after ops).Ascends s way ∧
      (empty.after ops).lookup? s name = way.findSome? ((empty.after ops).declared? · name)) ∧
    ((InternedTree.empty I).after ops).Agrees (empty.after ops) := by
  have declared : ∀ {run}, empty.Issued run → ∀ s name,
      (empty.after run).declared? s name = first? run s name := by
    intro run issued s name
    rw [declared?_after issued, declared?_empty, Option.none_or]
  obtain ⟨texts, rp⟩ := InternedTree.Represents.empty.after lawful issued
  refine ⟨declared issued, ?_, ?_, count_after issued, ?_, rp.agrees lawful⟩
  · intro s name d more longer found
    rw [declared issued] at found
    rw [declared longer, first?_append, found, Option.some_or]
  · intro s d
    rw [← declared issued]
    refine ⟨define_eq_error_iff, bind_eq_true_iff, fun again op more asks => ?_⟩
    rw [after_append, after_append, after, List.foldl_cons, perform_refused asks again]
    rfl
  · intro s name inside
    exact ⟨_, (Built.empty.after issued).ascends inside, rfl⟩

/-- A function with a parameter of the same name as a variable around it. The name is asked for once
more in the function, and then a block opens inside. -/
def ScopeTree.concealing : List ScopeTree.Operation :=
  [.openFunction .root [], .define .root ⟨"x", .var, false, false⟩,
    .bind ⟨1⟩ ⟨"x", .param, false, true⟩, .define ⟨1⟩ ⟨"x", .var, true, false⟩,
    .openScope ⟨1⟩ .block, .bind .root ⟨"y", .enum, false, false⟩]

/-- The parameter stays, and the block sees it, by names and by numbers. -/
theorem ScopeTree.concealing_after_refines :
    empty.Issued concealing ∧ Interner.numbering.Lawful ∧
      (empty.after concealing).declared? ⟨1⟩ "x" = some ⟨"x", .param, false, true⟩ ∧
      (empty.after concealing).count ⟨1⟩ = 1 ∧
      (∃ way, (empty.after concealing).Ascends ⟨2⟩ way ∧ (empty.after concealing).lookup? ⟨2⟩ "x" =
        way.findSome? ((empty.after concealing).declared? · "x")) ∧
      ((InternedTree.empty .numbering).after concealing).Agrees (empty.after concealing) := by
  have issued : empty.Issued concealing := by
    refine ⟨?_, ?_, ?_, ?_, ?_, ?_, trivial⟩ <;> decide
  obtain ⟨declared, -, -, count, lookup, agrees⟩ :=
    after_refines Interner.Lawful.numbering issued
  exact ⟨issued, .numbering, declared ⟨1⟩ "x", count ⟨1⟩, lookup ⟨2⟩ "x" (by decide), agrees⟩

end FrontEnd
