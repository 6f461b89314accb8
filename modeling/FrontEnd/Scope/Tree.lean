import FrontEnd.Scope.Declaration

/-!
# Scope trees

The scopes of one program, numbered in the order of their creation. Scope zero is the root, and
every other scope is created inside an existing one. A scope carries the list of the scopes around
it, from its parent to the root, so that a walk outward is a walk along a list.

Main statements: what `define` does to the declarations of each scope (`declared?_define`), and
that new scopes leave the others alone (`declared?_openWith`, `chain_openWith`).
-/

namespace FrontEnd

/-- The number of a scope. Numbers do not run out here: what is said of a tree is meant for trees of
fewer than `2 ^ 32` scopes, whose numbers fit into 32 bits. -/
structure ScopeId where
  index : Nat
deriving DecidableEq, Repr, Inhabited

/-- The scope with number zero. -/
def ScopeId.root : ScopeId := ⟨0⟩

/-- What a scope is called in the log. -/
def ScopeId.text (s : ScopeId) : String :=
  s!"scope#{s.index}"

/-- What a scope belongs to. -/
inductive ScopeKind where
  /-- The whole program. -/
  | global
  /-- The body of a function. -/
  | function
  /-- A branch or another nested block. -/
  | block
deriving DecidableEq, Repr

/-- A value that a function declares to return. -/
structure ReturnSlot where
  name? : Option String
  type? : Option String
deriving DecidableEq, Repr

/-- One scope: what it belongs to, the scopes around it from the innermost on, its declarations,
and the values that a function returns. -/
structure Scope where
  kind : ScopeKind
  enclosing : List ScopeId
  symbols : List Declaration
  returns : List ReturnSlot
deriving DecidableEq, Repr

/-- The scopes of a program. -/
structure ScopeTree where
  scopes : List Scope
deriving DecidableEq, Repr

/-- Why a name could not be declared. -/
inductive ScopeError where
  | alreadyDefined (name : String)
deriving DecidableEq, Repr

def ScopeError.message : ScopeError → String
  | alreadyDefined name => s!"symbol '{name}' already defined in this scope"

namespace Scope

/-- The scope around this one. -/
def parent? (s : Scope) : Option ScopeId :=
  s.enclosing.head?

/-- The declaration of a name in this scope itself. -/
def find? (s : Scope) (name : String) : Option Declaration :=
  s.symbols.find? fun d => d.name = name

/-- The scope with one more declaration. -/
def add (s : Scope) (d : Declaration) : Scope :=
  { s with symbols := s.symbols ++ [d] }

/-- An added declaration is found if its name was free. -/
theorem find?_add (s : Scope) (d : Declaration) (name : String) :
    (s.add d).find? name = (s.find? name).or (if d.name = name then some d else none) := by
  simp [add, find?, List.find?_append]

end Scope

namespace ScopeTree

/-- The tree with the root alone. -/
def empty : ScopeTree :=
  ⟨[⟨.global, [], [], []⟩]⟩

instance : Inhabited ScopeTree := ⟨empty⟩

/-- The number of scopes. -/
def size (t : ScopeTree) : Nat :=
  t.scopes.length

/-- The scope with a number. -/
def get? (t : ScopeTree) (s : ScopeId) : Option Scope :=
  t.scopes[s.index]?

/-- What a scope belongs to. -/
def kind? (t : ScopeTree) (s : ScopeId) : Option ScopeKind :=
  (t.get? s).map Scope.kind

/-- The scope around a scope. -/
def parent? (t : ScopeTree) (s : ScopeId) : Option ScopeId :=
  (t.get? s).bind Scope.parent?

/-- The scopes around a scope, from its parent to the root. -/
def enclosing (t : ScopeTree) (s : ScopeId) : List ScopeId :=
  (t.get? s).elim [] Scope.enclosing

/-- The scopes that a walk outward from a scope meets, the scope itself first. -/
def chain (t : ScopeTree) (s : ScopeId) : List ScopeId :=
  s :: t.enclosing s

/-- The number of scopes around a scope. -/
def depth (t : ScopeTree) (s : ScopeId) : Nat :=
  (t.enclosing s).length

/-- The values that the function of a scope declares to return. -/
def returns (t : ScopeTree) (s : ScopeId) : List ReturnSlot :=
  (t.get? s).elim [] Scope.returns

/-- The nearest scope of a kind on the way outward, the scope itself included. -/
def nearest? (t : ScopeTree) (s : ScopeId) (kind : ScopeKind) : Option ScopeId :=
  (t.chain s).find? fun id => t.kind? id = some kind

/-- The declaration of a name in a scope itself. -/
def declared? (t : ScopeTree) (s : ScopeId) (name : String) : Option Declaration :=
  (t.get? s).bind (·.find? name)

/-- The innermost declaration of a name on the way outward. -/
def lookup? (t : ScopeTree) (s : ScopeId) (name : String) : Option Declaration :=
  (t.chain s).findSome? (t.declared? · name)

/-- Creates a scope inside another one. -/
def openWith (t : ScopeTree) (parent : ScopeId) (kind : ScopeKind) (returns : List ReturnSlot) :
    ScopeId × ScopeTree :=
  (⟨t.size⟩, ⟨t.scopes ++ [⟨kind, t.chain parent, [], returns⟩]⟩)

/-- Creates a scope of a kind that returns nothing. -/
def openScope (t : ScopeTree) (parent : ScopeId) (kind : ScopeKind) : ScopeId × ScopeTree :=
  t.openWith parent kind []

/-- Creates the scope of a function with the values that it returns. -/
def openFunction (t : ScopeTree) (parent : ScopeId) (returns : List ReturnSlot) :
    ScopeId × ScopeTree :=
  t.openWith parent .function returns

/-- Declares a name in a scope, where it must be new. -/
def define (t : ScopeTree) (s : ScopeId) (d : Declaration) : Except ScopeError ScopeTree :=
  match t.declared? s d.name with
  | some _ => .error (.alreadyDefined d.name)
  | none => .ok ⟨t.scopes.modify s.index (·.add d)⟩

/-- Declares a name in a scope unless it is declared there, and says whether it did. -/
def bind (t : ScopeTree) (s : ScopeId) (d : Declaration) : Bool × ScopeTree :=
  match t.define s d with
  | .ok extended => (true, extended)
  | .error _ => (false, t)

/-! ## What the operations do to each scope -/

/-- A new scope leaves the others as they are. -/
theorem get?_openWith {t : ScopeTree} {parent s : ScopeId} {kind : ScopeKind}
    {returns : List ReturnSlot} (h : s.index < t.size) :
    (t.openWith parent kind returns).2.get? s = t.get? s := by
  simp only [openWith, get?]
  exact List.getElem?_append_left h

/-- A new scope leaves the declarations of the others alone. -/
theorem declared?_openWith {t : ScopeTree} {parent s : ScopeId} {kind : ScopeKind}
    {returns : List ReturnSlot} (h : s.index < t.size) (name : String) :
    (t.openWith parent kind returns).2.declared? s name = t.declared? s name := by
  simp only [declared?, get?_openWith h]

/-- A new scope leaves the way outward from the others alone. -/
theorem chain_openWith {t : ScopeTree} {parent s : ScopeId} {kind : ScopeKind}
    {returns : List ReturnSlot} (h : s.index < t.size) :
    (t.openWith parent kind returns).2.chain s = t.chain s := by
  simp only [chain, enclosing, get?_openWith h]

/-- A definition changes its own scope alone. -/
theorem get?_define {t extended : ScopeTree} {s : ScopeId} {d : Declaration}
    (h : t.define s d = .ok extended) (r : ScopeId) :
    extended.get? r = if r = s then (t.get? r).map (·.add d) else t.get? r := by
  unfold define at h
  split at h
  · simp at h
  · cases h
    obtain ⟨i⟩ := r
    obtain ⟨j⟩ := s
    by_cases hij : i = j
    · subst hij
      simp [get?]
    · have hji : ¬ j = i := fun e => hij e.symm
      simp [get?, hij, hji]

/-- A definition adds its name to its scope, and does nothing else. -/
theorem declared?_define {t extended : ScopeTree} {s : ScopeId} {d : Declaration}
    (h : t.define s d = .ok extended) (hs : s.index < t.size) (r : ScopeId) (name : String) :
    extended.declared? r name =
      if r = s ∧ name = d.name then some d else t.declared? r name := by
  have hnone : t.declared? s d.name = none := by
    unfold define at h
    split at h
    · simp at h
    · assumption
  simp only [declared?, get?_define h]
  by_cases hr : r = s
  · subst hr
    obtain ⟨scope, hget⟩ : ∃ scope, t.get? r = some scope :=
      ⟨t.scopes[r.index], List.getElem?_eq_getElem hs⟩
    by_cases hn : name = d.name
    · subst hn
      have hfind : scope.find? d.name = none := by simpa [declared?, hget] using hnone
      simp [hget, Scope.find?_add, hfind]
    · have hd : ¬ d.name = name := fun e => hn e.symm
      simp [hget, Scope.find?_add, hn, hd]
  · simp [hr]

/-- A definition leaves every way outward alone. -/
theorem chain_define {t extended : ScopeTree} {s : ScopeId} {d : Declaration}
    (h : t.define s d = .ok extended) (r : ScopeId) : extended.chain r = t.chain r := by
  simp only [chain, enclosing, get?_define h]
  split
  · cases t.get? r <;> rfl
  · rfl

end ScopeTree

end FrontEnd
