import FrontEnd.Compilation
import FrontEnd.Lexicon.Standard
import FrontEnd.Proofs.Analysis.Nesting
import FrontEnd.Proofs.Analysis.Strictness
import FrontEnd.Proofs.Token.Tiling

/-!
# Compiling one function

All stages together, for sources that are read as one function with a reference parameter. Its body
makes no declaration, so that each name in it means the same wherever it stands: the parameter, or
else the function, or else nothing (`Builder.access`). The rules of the strict policy ask nothing
more of such a program than that no name means nothing.

Main statement: `Pipeline.compile_oneFunction`.
-/

namespace FrontEnd

/-! ## Uses in a row -/

/-- A use of a name does not change what names mean. -/
lemma ScopeTree.seen?_used (tree : ScopeTree) (before : List Mention) (o : Occurrence)
    (name : String) (s : ScopeId) :
    tree.seen? (before ++ [.used o]) name s = tree.seen? before name s := by
  unfold seen?
  congr 1
  funext r
  unfold binding?
  rw [Mention.latest?_used]

/-- Uses in a row are all decided by what was declared before the first of them. -/
lemma Mention.resolutions_used (tree : ScopeTree) (before : List Mention) {os : List Occurrence}
    (vs : ∀ o ∈ os, o.isVisited) :
    resolutions tree before (os.map used) =
      os.map fun o => o.resolution (o.access tree before) := by
  induction os generalizing before with
  | nil => rfl
  | cons o os ih =>
    obtain ⟨here, later⟩ := List.forall_mem_cons.mp vs
    rw [List.map_cons, resolutions_cons_visited here, ih _ later, List.map_cons]
    congr 2
    funext u
    rw [Occurrence.access, Occurrence.access, ScopeTree.seen?_used]

/-! ## Tokens as statements -/

/-- The use of a name that a token is, in a block with this context. -/
def Occurrence.ofToken (context : ScopeId) (t : Token) : Occurrence :=
  ⟨⟨t.value, false, none⟩, t.span, false, context, .visited⟩

namespace Stmt

/-- Tokens as statements mention their names, each as used. -/
lemma mentionsOf_ofToken (tree : ScopeTree) (context : ScopeId) (ts : List Token) :
    mentionsOf tree context (ts.map ofToken) =
      (ts.map (Occurrence.ofToken context)).map .used := by
  induction ts with
  | nil => rfl
  | cons t ts ih =>
    rw [List.map_cons, mentionsOf, ih]
    rfl

/-- They have no statements inside them. -/
lemma statementsOf_ofToken (context : ScopeId) (ts : List Token) :
    statementsOf context (ts.map ofToken) = ts.map fun t => (context, ofToken t) := by
  induction ts with
  | nil => rfl
  | cons t ts ih =>
    rw [List.map_cons, statementsOf, ih]
    rfl

/-- Nor have they blocks. -/
lemma blockSum_ofToken (context : ScopeId) (ts : List Token) :
    blockSum (ts.map fun t => (context, ofToken t)) = 0 := by
  induction ts with
  | nil => rfl
  | cons t ts ih =>
    rw [List.map_cons, blockSum, ih]
    rfl

end Stmt

/-! ## The program of one function -/

namespace Builder

variable (function parameter : Token) (names : List Token)

/-- The access of a name in the body of the function. The parameter hides a function of the same
name. -/
def access (name : String) : Access :=
  if name = parameter.value then .cell
  else if name = function.value then .value
  else .unresolved

/-- The decision about a name in the body of the function. -/
def resolution (t : Token) : Resolution :=
  ⟨t.value, access function parameter t.value, false, t.span⟩

/-- What each access says about a name in the body of the function. -/
lemma access_iff (name : String) :
    (access function parameter name = .cell ↔ name = parameter.value) ∧
    (access function parameter name = .value ↔
      name ≠ parameter.value ∧ name = function.value) ∧
    (access function parameter name = .unresolved ↔
      name ≠ parameter.value ∧ name ≠ function.value) := by
  unfold access
  by_cases hp : name = parameter.value
  · simp [hp]
  · by_cases hf : name = function.value
    · simp [hp, ← hf]
    · simp [hp, hf]

/-- A name that means something is that of the function or of the parameter. -/
lemma access_ne_unresolved_iff (name : String) :
    access function parameter name ≠ .unresolved ↔
      name = function.value ∨ name = parameter.value := by
  rw [Ne, (access_iff function parameter name).2.2, not_and_or, not_not, not_not, or_comm]

/-- What the function and its parameter declare. -/
def declarations : List Mention :=
  [.declared .root (.ofFunction function.value),
    .declared ⟨1⟩ (Parameter.declaration ⟨parameter.value, true, false, parameter.span⟩)]

/-- The program declares the function and the parameter, and then uses the names. -/
lemma mentions_functionProgram :
    (functionProgram function parameter names).mentions =
      declarations function parameter ++
        ((parameter :: names).map (Occurrence.ofToken ⟨1⟩)).map .used := by
  rw [← Stmt.mentionsOf_ofToken (functionProgram function parameter names).scopes]
  exact List.append_nil _

/-- Its statements are the function and the uses in the body. -/
lemma statements_functionProgram :
    (functionProgram function parameter names).statements =
      (.root, .function function.value [⟨parameter.value, true, false, parameter.span⟩]
        (.mk ⟨1⟩ ((parameter :: names).map Stmt.ofToken) .origin) false function.span) ::
        (parameter :: names).map fun t => (⟨1⟩, Stmt.ofToken t) := by
  rw [← Stmt.statementsOf_ofToken]
  exact List.append_nil _

/-- In the body of the function, the parameter is looked for before the function. -/
lemma seen?_functionProgram (name : String) :
    (functionProgram function parameter names).scopes.seen? (declarations function parameter) name
      ⟨1⟩ =
    if name = parameter.value then
      some (Parameter.declaration ⟨parameter.value, true, false, parameter.span⟩)
    else if name = function.value then some (.ofFunction function.value)
    else none := by
  let tree := (functionProgram function parameter names).scopes
  -- The tree declares nothing itself, so each of the two scopes binds what is mentioned.
  have inside : tree.binding? (declarations function parameter) name ⟨1⟩ =
      if name = parameter.value then
        some (Parameter.declaration ⟨parameter.value, true, false, parameter.span⟩)
      else none := by
    refine (Mention.latest?_declared [.declared .root (.ofFunction function.value)] ..).trans ?_
    simp [Mention.latest?, Mention.declaration?, ScopeId.root, Parameter.declaration]
  have outside : tree.binding? (declarations function parameter) name .root =
      if name = function.value then some (.ofFunction function.value) else none := by
    refine (Mention.latest?_declared [.declared .root (.ofFunction function.value)] ..).trans ?_
    rw [← List.nil_append [Mention.declared .root _], Mention.latest?_declared]
    simp [Mention.latest?, ScopeId.root, Declaration.ofFunction]
  have outward : tree.chain ⟨1⟩ = [⟨1⟩, .root] := rfl
  rw [ScopeTree.seen?, outward, List.findSome?_cons, inside]
  by_cases hp : name = parameter.value
  · rw [if_pos hp, if_pos hp]
  · rw [if_neg hp, if_neg hp, List.findSome?_singleton, outside]

/-- Each use is decided by its name alone. -/
lemma resolutions_functionProgram :
    Mention.resolutions (functionProgram function parameter names).scopes []
      (functionProgram function parameter names).mentions =
      (parameter :: names).map (resolution function parameter) := by
  rw [mentions_functionProgram, Mention.resolutions_append, Mention.resolutions_used]
  · rw [List.map_map]
    refine List.map_congr_left fun t _ => ?_
    have decided : Access.classify false ((functionProgram function parameter names).scopes.seen?
        (declarations function parameter) t.value ⟨1⟩) = access function parameter t.value := by
      rw [seen?_functionProgram, access]
      split
      · rfl
      · split <;> rfl
    rw [resolution, ← decided]
    rfl
  · intro o ho
    obtain ⟨t, -, rfl⟩ := List.mem_map.mp ho
    rfl

/-- The body of the function is the only block inside the program. -/
lemma blockCount_functionProgram :
    (functionProgram function parameter names).blockCount = 1 := by
  rw [Program.blockCount, statements_functionProgram, Stmt.blockSum, Stmt.blockSum_ofToken]
  rfl

/-- The program has neither returns nor enumerations, and so breaks none of the rules about them. -/
lemma clean_functionProgram : Step.Clean (functionProgram function parameter names).steps := by
  rw [Program.clean_iff]
  constructor
  · intro context values span hs
    rw [statements_functionProgram] at hs
    simp [Stmt.ofToken] at hs
  · intro context e span hs
    rw [statements_functionProgram] at hs
    simp [Stmt.ofToken] at hs

variable (lex : Lexicon)

/-- A permissive pass decides about each use in the body, and enters the body alone. -/
lemma exists_analysis :
    ∃ a, ((functionProgram function parameter names).analyze lex .permissive).result = .ok a ∧
      a.resolutions = (parameter :: names).map (resolution function parameter) ∧
      a.pushes = 1 ∧ a.pops = 1 := by
  obtain ⟨a, ok⟩ := (functionProgram function parameter names).exists_permissive lex
  obtain ⟨-, pushes, pops⟩ := Program.scopes_of_analyze ok
  rw [blockCount_functionProgram] at pushes pops
  refine ⟨a, ok, ?_, pushes, pops⟩
  rw [Program.resolutions_eq ok, resolutions_functionProgram]

/-- A strict pass succeeds exactly if every name is that of the function or of the parameter. -/
lemma exists_strict_iff :
    (∃ a, ((functionProgram function parameter names).analyze lex .strict).result = .ok a) ↔
      ∀ t ∈ names, t.value = function.value ∨ t.value = parameter.value := by
  obtain ⟨a, ok, decided, -⟩ := exists_analysis function parameter names lex
  have settled : Event.Settled a.events ↔
      ∀ t ∈ parameter :: names, t.value = function.value ∨ t.value = parameter.value := by
    have told : Event.resolutions a.events = a.resolutions := rfl
    unfold Event.Settled
    rw [told, decided, List.forall_mem_map]
    exact forall₂_congr fun t _ => access_ne_unresolved_iff function parameter t.value
  rw [List.forall_mem_cons, and_iff_right (.inr rfl)] at settled
  rw [← settled]
  constructor
  · rintro ⟨b, hb⟩
    exact ((Program.strict_iff ok).mp hb).2.2
  · intro hs
    exact ⟨a, (Program.strict_iff ok).mpr ⟨rfl, clean_functionProgram function parameter names, hs⟩⟩

/-- Otherwise it fails at the first other name. -/
lemma strict_eq_error {before after : List Token} {t : Token}
    (known : ∀ u ∈ before, u.value = function.value ∨ u.value = parameter.value)
    (unknown : ¬ (t.value = function.value ∨ t.value = parameter.value)) :
    ((functionProgram function parameter (before ++ t :: after)).analyze lex .strict).result =
      .error ⟨.undefinedIdentifier t.value, t.span⟩ := by
  obtain ⟨a, ok, decided, -⟩ := exists_analysis function parameter (before ++ t :: after) lex
  have first : a.resolutions.find? (fun r => r.access = .unresolved) =
      some (resolution function parameter t) := by
    rw [decided, List.find?_eq_some_iff_append]
    refine ⟨?_, (parameter :: before).map (resolution function parameter),
      after.map (resolution function parameter), by simp, ?_⟩
    · have unresolved : access function parameter t.value = .unresolved :=
        not_not.mp (mt (access_ne_unresolved_iff function parameter t.value).mp unknown)
      exact decide_eq_true unresolved
    · intro r hr
      obtain ⟨u, hu, rfl⟩ := List.mem_map.mp hr
      have resolved : access function parameter u.value ≠ .unresolved := by
        rw [access_ne_unresolved_iff]
        rcases List.mem_cons.mp hu with rfl | hu
        · exact .inr rfl
        · exact known u hu
      rw [Bool.not_eq_true']
      exact decide_eq_false resolved
  exact Program.strict_error_of_find? ok (clean_functionProgram _ _ _) first

end Builder

/-! ## All stages -/

namespace Pipeline

section

variable {p : Pipeline} {builder : Builder} {source : String} {tokens : List Token}
  {program : Program}

/-- Once a source is scanned and its tokens are a program, the pass over that decides. -/
lemma result_compile (scanned : p.lexicon.scan p.quotes source = .ok tokens)
    (built : builder.build tokens = .ok program) :
    (p.compile builder source).result =
      (Except.map (Prod.mk (program.analyze p.lexicon p.policy).program)
        (program.analyze p.lexicon p.policy).result).mapError Violation.fault := by
  rw [compile]
  simp only [scanned, built]
  cases (program.analyze p.lexicon p.policy).result <;> rfl

/-- Once a source is scanned and built, it compiles exactly if the pass succeeds. -/
lemma exists_compiled_iff (scanned : p.lexicon.scan p.quotes source = .ok tokens)
    (built : builder.build tokens = .ok program) :
    (∃ compiled, (p.compile builder source).result = .ok compiled) ↔
      ∃ a, (program.analyze p.lexicon p.policy).result = .ok a := by
  rw [result_compile scanned built]
  cases (program.analyze p.lexicon p.policy).result with
  | error v => exact iff_of_false nofun nofun
  | ok a => exact iff_of_true ⟨_, rfl⟩ ⟨a, rfl⟩

end

/-- A source that is read as one function compiles under the permissive policy, with one decision
about each use, at its place in the source. Under the strict policy it compiles exactly if all
names are those of the function and its parameter, and otherwise fails at the first that is
neither. -/
theorem compile_oneFunction {lexicon : Lexicon} {quotes : QuoteRule} {source : String} {tokens}
    {function parameter : Token} {names : List Token}
    (scanned : lexicon.scan quotes source = .ok tokens)
    (ids : tokens.filter Token.isIdentifier = function :: parameter :: names) :
    (∃ program a,
      ((Pipeline.mk lexicon quotes .permissive).compile .oneFunction source).result =
        .ok (program, a) ∧
      a.resolutions.map (fun r => (r.name, r.isMember, r.span)) =
        (parameter :: names).map (fun t => (t.value, false, t.span)) ∧
      (∀ r ∈ a.resolutions, r.span.slice? source = some r.name ∧
        (r.access = .cell ∧ r.rendered = r.name ++ ".value" ↔ r.name = parameter.value) ∧
        (r.access = .value ↔ r.name ≠ parameter.value ∧ r.name = function.value) ∧
        (r.access = .unresolved ↔ r.name ≠ parameter.value ∧ r.name ≠ function.value)) ∧
      a.pushes = 1 ∧ a.pops = 1) ∧
    let strict := ((Pipeline.mk lexicon quotes .strict).compile .oneFunction source).result
    ((∃ compiled, strict = .ok compiled) ↔
      ∀ t ∈ names, t.value = function.value ∨ t.value = parameter.value) ∧
    ∀ before t after, names = before ++ t :: after →
      (∀ u ∈ before, u.value = function.value ∨ u.value = parameter.value) →
      ¬ (t.value = function.value ∨ t.value = parameter.value) →
      strict = .error (.semantic (SemanticError.undefinedIdentifier t.value).message t.span) := by
  have built : Builder.oneFunction.build tokens =
      .ok (Builder.functionProgram function parameter names) := by
    show (Builder.functionOf (tokens.filter Token.isIdentifier)).mapError _ = _
    rw [ids]
    rfl
  constructor
  · obtain ⟨a, ok, decided, counts⟩ := Builder.exists_analysis function parameter names lexicon
    have compiled := result_compile (p := ⟨lexicon, quotes, .permissive⟩) scanned built
    rw [ok] at compiled
    refine ⟨_, a, compiled, ?_, ?_, counts⟩
    · rw [decided, List.map_map]
      rfl
    · intro r hr
      rw [decided] at hr
      obtain ⟨t, ht, rfl⟩ := List.mem_map.mp hr
      have here : t ∈ tokens := by
        have member : t ∈ tokens.filter Token.isIdentifier := ids ▸ List.mem_cons_of_mem _ ht
        exact List.mem_of_mem_filter member
      obtain ⟨cell, value, unresolved⟩ := Builder.access_iff function parameter t.value
      refine ⟨Lexicon.slice?_of_scan scanned here, ?_, value, unresolved⟩
      refine (and_iff_left_of_imp fun access => ?_).trans cell
      exact congrArg (Access.render · t.value) access
  · intro strict
    constructor
    · rw [← Builder.exists_strict_iff function parameter names lexicon]
      exact exists_compiled_iff scanned built
    · rintro before t after rfl known unknown
      have stopped := result_compile (p := ⟨lexicon, quotes, .strict⟩) scanned built
      rw [Builder.strict_eq_error function parameter lexicon known unknown] at stopped
      exact stopped

end Pipeline

/-- A function that uses its parameter, itself and another name, behind a letter of two bytes. -/
theorem threeNames_compile_oneFunction :
    let source := "func f(inout a) é f-b"
    (∃ program a,
      ((Pipeline.mk .standard .matchOpening .permissive).compile .oneFunction source).result =
        .ok (program, a) ∧
      a.resolutions.map (fun r => (r.name, r.isMember, r.span)) =
        [("a", false, ⟨13, 14⟩), ("f", false, ⟨19, 20⟩), ("b", false, ⟨21, 22⟩)] ∧
      (∀ r ∈ a.resolutions, r.span.slice? source = some r.name ∧
        (r.access = .cell ∧ r.rendered = r.name ++ ".value" ↔ r.name = "a") ∧
        (r.access = .value ↔ r.name ≠ "a" ∧ r.name = "f") ∧
        (r.access = .unresolved ↔ r.name ≠ "a" ∧ r.name ≠ "f")) ∧
      a.pushes = 1 ∧ a.pops = 1) ∧
    ((Pipeline.mk .standard .matchOpening .strict).compile .oneFunction source).result =
      .error (.semantic "undefined identifier 'b'" ⟨21, 22⟩) := by
  have scanned : Lexicon.standard.scan .matchOpening "func f(inout a) é f-b" = .ok
      [⟨⟨20⟩, "func", ⟨0, 4⟩⟩, ⟨.identifier, "f", ⟨5, 6⟩⟩, ⟨⟨50⟩, "(", ⟨6, 7⟩⟩,
        ⟨⟨25⟩, "inout", ⟨7, 12⟩⟩, ⟨.identifier, "a", ⟨13, 14⟩⟩, ⟨⟨51⟩, ")", ⟨14, 15⟩⟩,
        ⟨.identifier, "f", ⟨19, 20⟩⟩, ⟨⟨30⟩, "-", ⟨20, 21⟩⟩, ⟨.identifier, "b", ⟨21, 22⟩⟩] := by
    decide +kernel
  obtain ⟨compiled, -, stops⟩ := Pipeline.compile_oneFunction scanned rfl
  exact ⟨compiled, stops [⟨.identifier, "f", ⟨19, 20⟩⟩] _ [] rfl (by simp) (by decide)⟩

end FrontEnd
