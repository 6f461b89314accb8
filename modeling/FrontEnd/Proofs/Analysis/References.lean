import FrontEnd.Proofs.Analysis.Declaring

/-!
# Reference parameters

A reference parameter whose name is declared once, in the whole program and its scope tree, is
reached as a cell everywhere inside its function and is invisible outside. A lookup from a scope
finds it exactly if the context of the body of the function is on the way outward.

Main statement: `Program.analyze_reference`.
-/

namespace FrontEnd

/-- The decision with this number says that an occurrence has this access and this spelling. -/
def Analysis.Decides (a : Analysis) (index : Nat) (o : Occurrence) (access : Access)
    (text : String) : Prop :=
  a.resolutions[index]? = some (o.resolution access) ∧ (o.resolution access).rendered = text

/-! ## A name that is declared once -/

namespace Mention

/-- Mentioned declarations of a name are all this one. -/
def Sole (ms : List Mention) (name : String) (s : ScopeId) (d : Declaration) : Prop :=
  ∀ entry ∈ declarations ms, entry.2.name = name → entry = (s, d)

/-- The latest declaration of a name that is declared once. -/
lemma Sole.latest? {ms : List Mention} {name s d} (sole : Sole ms name s d) (hn : d.name = name)
    (r : ScopeId) :
    Mention.latest? ms r name =
      if r = s ∧ (s, d) ∈ declarations ms then some d else none := by
  rw [Mention.latest?_eq]
  split
  case isTrue h =>
    obtain ⟨rfl, hm⟩ := h
    -- The declarations of the name are copies of one, which is among them.
    have all : ∀ entry ∈ (declarations ms).filter (Overlay.declares r name), entry = (r, d) := by
      intro entry he
      obtain ⟨he, hd⟩ := List.mem_filter.mp he
      exact sole entry he (Prod.mk.inj (Overlay.declares_iff.mp hd)).2
    have present : (r, d) ∈ (declarations ms).filter (Overlay.declares r name) :=
      List.mem_filter.mpr ⟨hm, Overlay.declares_iff.mpr (by rw [Overlay.key, hn])⟩
    have ne := List.ne_nil_of_mem present
    rw [List.getLast?_eq_some_getLast ne, all _ (List.getLast_mem ne)]
    rfl
  case isFalse h =>
    rw [Option.map_eq_none_iff, List.getLast?_eq_none_iff, List.filter_eq_nil_iff]
    rintro entry he hd
    obtain ⟨rfl, en⟩ := Prod.mk.inj (Overlay.declares_iff.mp hd)
    obtain rfl := sole entry he en
    exact h ⟨rfl, he⟩

end Mention

namespace ScopeTree

variable {tree : ScopeTree} {before : List Mention} {name : String} {s : ScopeId} {d : Declaration}

/-- A scope binds a name that is declared once if it is the scope of the declaration. -/
lemma binding?_of_sole (absent : ∀ r, tree.declared? r name = none)
    (sole : Mention.Sole before name s d) (hn : d.name = name) (r : ScopeId) :
    tree.binding? before name r =
      if r = s ∧ (s, d) ∈ Mention.declarations before then some d else none := by
  rw [binding?, absent, Option.none_or, sole.latest? hn]

/-- On the way outward from a scope, a name that is declared once is found in its scope. -/
lemma seen?_of_sole (absent : ∀ r, tree.declared? r name = none)
    (sole : Mention.Sole before name s d) (hn : d.name = name)
    (hm : (s, d) ∈ Mention.declarations before) {r : ScopeId} (on : s ∈ tree.chain r) :
    tree.seen? before name r = some d := by
  have bound : tree.binding? before name s = some d := by
    rw [binding?_of_sole absent sole hn, if_pos ⟨rfl, hm⟩]
  cases found : tree.seen? before name r with
  | none => cases (List.findSome?_eq_none_iff.mp found s on).symm.trans bound
  | some e =>
    obtain ⟨q, _, hq⟩ := List.exists_of_findSome?_eq_some found
    rw [binding?_of_sole absent sole hn] at hq
    split at hq
    · exact hq.symm
    · cases hq

/-- A name that is declared once is not found if its scope is not on the way outward. -/
lemma seen?_of_sole_off (absent : ∀ r, tree.declared? r name = none)
    (sole : Mention.Sole before name s d) (hn : d.name = name) {r : ScopeId}
    (off : s ∉ tree.chain r) : tree.seen? before name r = none := by
  refine List.findSome?_eq_none_iff.mpr fun q hq => ?_
  rw [binding?_of_sole absent sole hn, if_neg]
  rintro ⟨rfl, _⟩
  exact off hq

end ScopeTree

/-! ## Functions with a reference parameter -/

/-- If one declaration of a program has a name, it is the only one before any place. -/
lemma Program.sole_of_once {p : Program} {before after : List Mention} {name s d}
    (once : p.declarations.countP (fun entry => entry.2.name = name) = 1)
    (mem : (s, d) ∈ p.declarations) (hn : d.name = name) (cut : p.mentions = before ++ after) :
    Mention.Sole before name s d := by
  rw [List.countP_eq_length_filter] at once
  obtain ⟨x, hx⟩ := List.length_eq_one_iff.mp once
  have only : ∀ entry ∈ p.declarations, entry.2.name = name → entry = x := by
    intro entry he en
    have hf : entry ∈ p.declarations.filter fun entry => entry.2.name = name :=
      List.mem_filter.mpr ⟨he, by simpa using en⟩
    rw [hx] at hf
    exact List.mem_singleton.mp hf
  intro entry he en
  have hp : entry ∈ p.declarations := by
    rw [← p.declarations_mentions, cut, Mention.declarations_append]
    exact List.mem_append_left _ he
  rw [only entry hp en, only (s, d) mem hn]

/-- What a function mentions before its body. -/
def Stmt.header (context : ScopeId) (name : String) (parameters : List Parameter) (body : Block) :
    List Mention :=
  .declared context (.ofFunction name) ::
    parameters.map fun p => .declared body.context p.declaration

/-- A function mentions its name and its parameters, and then what its body does. -/
lemma Stmt.mentions_function (tree : ScopeTree) (context : ScopeId) (name : String)
    (parameters : List Parameter) (body : Block) (isExported : Bool) (span : Span) :
    (Stmt.function name parameters body isExported span).mentions tree context =
      Stmt.header context name parameters body ++ body.mentions tree := by
  rw [Stmt.mentions, header]

/-- There are no uses before the body. -/
lemma Stmt.countP_header (context : ScopeId) (name : String) (parameters : List Parameter)
    (body : Block) : (Stmt.header context name parameters body).countP Mention.isVisited = 0 := by
  rw [List.countP_eq_zero]
  intro m hm
  rcases List.mem_cons.mp hm with rfl | hm
  · exact Bool.false_ne_true
  · obtain ⟨_, _, rfl⟩ := List.mem_map.mp hm
    exact Bool.false_ne_true

/-- Parameters are declared before the body, in its context. -/
lemma Stmt.mem_declarations_header {context name parameters} {body : Block} {param : Parameter}
    (mem : param ∈ parameters) :
    (body.context, param.declaration) ∈
      Mention.declarations (Stmt.header context name parameters body) := by
  rw [header, Mention.declarations_declared, Parameter.declarations_mentions]
  exact List.mem_cons_of_mem _ (List.mem_map.mpr ⟨param, mem, rfl⟩)

/-- A use of a reference is a cell, unless it is marked as a pointer. -/
lemma Parameter.classify_reference {param : Parameter} (reference : param.isReference = true)
    (plain : param.isPointer = false) (asPointer : Bool) :
    Access.classify asPointer (some param.declaration) = if asPointer then .pointer else .cell := by
  cases asPointer <;> simp [Access.classify, Parameter.declaration, reference, plain]

/-- A pass that succeeds decides about an occurrence by what the lookup finds there. -/
lemma Program.decides {p : Program} {lex policy a before o after found}
    (ok : (p.analyze lex policy).result = .ok a) (here : p.mentions = before ++ .used o :: after)
    (visited : o.standing = .visited)
    (sees : p.scopes.seen? before o.identifier.name o.scope = found) :
    a.Decides (before.countP Mention.isVisited) o (.classify o.identifier.isPointer found)
      ((Access.classify o.identifier.isPointer found).render o.identifier.name) := by
  refine ⟨?_, rfl⟩
  subst sees
  rw [p.resolutions_eq ok, here]
  exact Mention.getElem?_resolutions p.scopes (by simpa [Occurrence.isVisited] using visited)

/-- Where a function of a program stands. -/
lemma Program.mentions_function {p : Program} {context name parameters body isExported span}
    (here : (context, .function name parameters body isExported span) ∈ p.statements) :
    ∃ before after, p.mentions =
      before ++ (Stmt.header context name parameters body ++ body.mentions p.scopes) ++ after := by
  obtain ⟨before, after, whole⟩ : _ <:+: p.mentions := Block.mentions_infix p.block here
  rw [Stmt.mentions_function] at whole
  exact ⟨before, after, whole.symm⟩

/-- In a pass that succeeds, a reference parameter that nothing else is named like is unwrapped by
every use inside its function, unless the use is marked as a pointer, and no use outside sees it. -/
theorem Program.analyze_reference {p : Program} {context name parameters body isExported span}
    {param : Parameter} {lex policy a}
    (here : (context, .function name parameters body isExported span) ∈ p.statements)
    (mem : param ∈ parameters) (reference : param.isReference = true)
    (plain : param.isPointer = false)
    (once : p.declarations.countP (fun entry => entry.2.name = param.name) = 1)
    (absent : ∀ s, p.scopes.declared? s param.name = none)
    (within : ∀ entry ∈ body.statements, body.context ∈ p.scopes.chain entry.1)
    (ok : (p.analyze lex policy).result = .ok a) :
    (∃ before after,
      p.mentions = before ++
        (Stmt.function name parameters body isExported span).mentions p.scopes context ++ after ∧
      ∀ inner o rest, body.mentions p.scopes = inner ++ .used o :: rest →
        o.standing = .visited → o.identifier.name = param.name →
        a.Decides (before.countP Mention.isVisited + inner.countP Mention.isVisited) o
          (if o.identifier.isPointer then .pointer else .cell)
          (if o.identifier.isPointer then param.name else param.name ++ ".value")) ∧
    ∀ before o after, p.mentions = before ++ .used o :: after →
      o.standing = .visited → o.identifier.name = param.name →
      body.context ∉ p.scopes.chain o.scope →
      a.Decides (before.countP Mention.isVisited) o .unresolved param.name := by
  have declared : (body.context, param.declaration) ∈ p.declarations :=
    List.mem_flatMap.mpr ⟨_, here, List.mem_cons_of_mem _ (List.mem_map.mpr ⟨param, mem, rfl⟩)⟩
  constructor
  · obtain ⟨front, back, whole⟩ := Program.mentions_function here
    refine ⟨front, back, by rw [Stmt.mentions_function, whole], ?_⟩
    intro inner o rest cut visited hn
    let before := front ++ Stmt.header context name parameters body ++ inner
    have place : p.mentions = before ++ .used o :: (rest ++ back) := by
      rw [whole, cut]
      simp only [before, List.append_assoc, List.cons_append]
    have used : .used o ∈ body.mentions p.scopes := by
      rw [cut]
      exact List.mem_append_right _ List.mem_cons_self
    obtain ⟨t, ht⟩ := Block.scope_of_mem_mentions body used
    have sees : p.scopes.seen? before o.identifier.name o.scope = some param.declaration := by
      rw [hn]
      refine ScopeTree.seen?_of_sole absent (p.sole_of_once once declared rfl place) rfl ?_
        (within _ ht)
      rw [Mention.declarations_append, Mention.declarations_append]
      exact List.mem_append_left _ (List.mem_append_right _ (Stmt.mem_declarations_header mem))
    have decided := Program.decides ok place visited sees
    rw [List.countP_append, List.countP_append, Stmt.countP_header, Nat.add_zero, hn,
      Parameter.classify_reference reference plain] at decided
    cases hp : o.identifier.isPointer <;> rwa [hp] at decided
  · intro before o after cut visited hn off
    have sees : p.scopes.seen? before o.identifier.name o.scope = none := by
      rw [hn]
      exact ScopeTree.seen?_of_sole_off absent (p.sole_of_once once declared rfl cut) rfl off
    have decided := Program.decides ok cut visited sees
    rwa [hn] at decided

/-- A function inside another one, with a reference that a test and a branch use. The outer function
uses the same name before and after it. -/
def borrowing : Program :=
  let use (place : Nat) : Stmt := .expression (.ofName "x" ⟨place, place + 1⟩) .origin
  let outer := ScopeTree.empty.openFunction .root []
  let inner := outer.2.openFunction outer.1 []
  let branch := inner.2.openScope inner.1 .block
  let body := .mk inner.1 [.conditional (.identifier ⟨"x", true, none⟩ ⟨2, 3⟩)
    (some (.mk branch.1 [use 3] .origin)) .absent .origin] .origin
  let f := .function "f" [⟨"x", true, false, .origin⟩] body false .origin
  ⟨.mk .root [.function "g" [] (.mk outer.1 [use 1, f, use 4] .origin) false .origin] .origin,
    branch.2⟩

/-- The uses inside see the reference, the pointer as it is and the other one unwrapped, and those
around do not see it. -/
theorem borrowing_analyze_reference :
    ∃ a, (borrowing.analyze .empty .permissive).result = .ok a ∧
      (∃ index, a.Decides index ⟨⟨"x", true, none⟩, ⟨2, 3⟩, false, ⟨2⟩, .visited⟩ .pointer "x" ∧
        a.Decides (index + 1) ⟨⟨"x", false, none⟩, ⟨3, 4⟩, false, ⟨3⟩, .visited⟩ .cell "x.value") ∧
      a.Decides 0 ⟨⟨"x", false, none⟩, ⟨1, 2⟩, false, ⟨1⟩, .visited⟩ .unresolved "x" ∧
      a.Decides 3 ⟨⟨"x", false, none⟩, ⟨4, 5⟩, false, ⟨1⟩, .visited⟩ .unresolved "x" := by
  have absent : ∀ s, borrowing.scopes.declared? s "x" = none := by
    rintro ⟨_ | _ | _ | _ | index⟩ <;> rfl
  have here : (⟨1⟩, .function "f" _ _ _ _) ∈ borrowing.statements :=
    List.mem_cons_of_mem _ (List.mem_cons_of_mem _ List.mem_cons_self)
  have ok : (borrowing.analyze .empty .permissive).result = .ok _ := rfl
  obtain ⟨⟨before, after, -, inside⟩, outside⟩ :=
    Program.analyze_reference here List.mem_cons_self rfl rfl rfl absent (by decide) ok
  refine ⟨_, ok, ⟨before.countP Mention.isVisited, ?_, ?_⟩, ?_, ?_⟩
  · exact inside [] _ _ rfl rfl rfl
  · exact inside [_] _ _ rfl rfl rfl
  · exact outside _ _ _ (show _ = [_] ++ _ :: _ from rfl) rfl rfl (by decide)
  · exact outside _ _ _ (show _ = [_, _, _, _, _, _] ++ _ :: _ from rfl) rfl rfl (by decide)

end FrontEnd
