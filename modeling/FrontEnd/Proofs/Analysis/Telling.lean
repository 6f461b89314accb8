import FrontEnd.Proofs.Program.Content

/-!
# What steps tell

The relation `Tells` between the steps of a part of a program and its mentions: the steps stand in a
scope, their blocks open and close in pairs, and what they declare and use inside a block is
mentioned there with the context of that block. Steps do not tell the occurrences that an
analysis does not visit.

The relation is where the two readings of a program meet. Facts about performing steps go by
induction on it and need not look at the tree of the program again.

Main statement: `Program.tells`, the steps of a program tell its mentions.
-/

namespace FrontEnd

/-- Whether a step is neither about a scope nor about a name. -/
def Step.isQuiet : Step → Bool
  | operate _ _ | importLiteral _ _ | violate _ | remark _ => true
  | enter _ | leave | declare _ | use _ => false

/-- Steps that are performed in a scope, and what they mention. -/
inductive Tells : ScopeId → List Step → List Mention → Prop where
  | nil {s} :
    Tells s [] []
  | append {s first second ms ns} :
    Tells s first ms →
    Tells s second ns →
    Tells s (first ++ second) (ms ++ ns)
  | quiet {s step} :
    step.isQuiet →
    Tells s [step] []
  | declare {s d} :
    Tells s [.declare d] [.declared s d]
  | use {o} :
    o.isVisited →
    Tells o.scope [.use o.use] [.used o]
  | skip {s o} :
    ¬ o.isVisited →
    Tells s [] [.used o]
  | block {s inner steps ms} :
    Tells inner steps ms →
    Tells s (.enter inner :: steps ++ [.leave]) ms

namespace Tells

/-- One more step in front. -/
lemma cons {s step steps ms ns} (hd : Tells s [step] ms) (tl : Tells s steps ns) :
    Tells s (step :: steps) (ms ++ ns) :=
  hd.append tl

/-- Quiet steps tell nothing. -/
lemma quietAll {s} : ∀ {steps : List Step}, (∀ step ∈ steps, step.isQuiet) → Tells s steps []
  | [], _ => .nil
  | step :: steps, h => by
    have hd : Tells s [step] [] := .quiet (h step (by simp))
    exact hd.cons (quietAll fun x hx => h x (by simp [hx]))

/-- Broken rules tell nothing. -/
lemma violations {s} {α : Type} (f : α → Violation) (xs : List α) :
    Tells s (xs.map fun x => .violate (f x)) [] := by
  apply quietAll
  intro step h
  obtain ⟨_, _, rfl⟩ := List.mem_map.mp h
  rfl

/-- A remark that may be made tells nothing. -/
lemma remarkIf {s} (told : Bool) (r : Remark) : Tells s (if told then [.remark r] else []) [] := by
  split
  · exact .quiet rfl
  · exact .nil

/-- No steps are needed for occurrences that are not visited. -/
lemma skipAll {s} :
    ∀ {os : List Occurrence}, (∀ o ∈ os, ¬ o.isVisited) → Tells s [] (os.map .used)
  | [], _ => .nil
  | o :: os, h => by
    have hd : Tells s [] [.used o] := .skip (h o (by simp))
    exact hd.append (skipAll fun x hx => h x (by simp [hx]))

end Tells

/-! ## Expressions -/

namespace Expr

/-- What stands outside an analysis is skipped. -/
lemma tells_skip {s scope standing} (es : List Expr) (out : standing ≠ .visited) :
    Tells s [] ((occurrencesOf scope standing es).map .used) := by
  apply Tells.skipAll
  intro o ho
  rw [Occurrence.isVisited, (place_of_mem_occurrencesOf es ho).2]
  simpa using out

mutual

/-- The steps of an expression tell its identifiers. -/
lemma tells (s : ScopeId) :
    ∀ (isProperty : Bool) (e : Expr),
      Tells s (e.steps isProperty) ((e.occurrences s .visited isProperty).map .used)
  | _, literal _ _ => .nil
  | _, parameter _ _ => .nil
  | isProperty, identifier i span => Tells.use (o := ⟨i, span, isProperty, s, .visited⟩) rfl
  | _, binary left operator right span => by
    rw [steps, occurrences, List.map_append]
    have mid : Tells s [.operate operator span] [] := .quiet rfl
    exact (tells s false left).append (mid.cons (tells s false right))
  | _, call callee arguments _ => by
    rw [steps, occurrences, List.map_append]
    exact (tells s false callee).append (tellsOf s arguments)
  | _, member object property _ => by
    rw [steps, occurrences, List.map_append]
    exact (tells s false object).append (tells s true property)
  | _, array elements _ => tellsOf s elements

/-- Expressions in a row tell their occurrences in order. -/
lemma tellsOf (s : ScopeId) :
    ∀ es : List Expr, Tells s (stepsOf es) ((occurrencesOf s .visited es).map .used)
  | [] => .nil
  | e :: rest => by
    rw [stepsOf, occurrencesOf, List.map_append]
    exact (tells s false e).append (tellsOf s rest)

end

/-- The steps of values for slots tell their identifiers. -/
lemma tells_slotSteps (s : ScopeId) (index : Nat) (es : List Expr) :
    Tells s (slotSteps index es) ((occurrencesOf s .visited es).map .used) := by
  induction es generalizing index with
  | nil => exact .nil
  | cons e rest ih =>
    rw [slotSteps, occurrencesOf, List.map_append]
    have hd : Tells s [.remark (.returnSlot index)] [] := .quiet rfl
    exact hd.cons ((tells s false e).append (ih (index + 1)))

/-- The steps of a return tell the identifiers of its values. -/
lemma tells_returnSteps (tree : ScopeTree) (context : ScopeId) (values : List Expr)
    (span : Span) :
    Tells context (returnSteps tree context values span)
      ((returnOccurrences tree context values).map .used) := by
  -- Both sides split the values at the same place: at their end if nothing is declared.
  have visits : Tells context (valueSteps tree context values)
      ((occurrencesOf context .visited
        (values.take (visitedCount tree context values))).map .used) := by
    unfold valueSteps visitedCount
    split
    · rw [List.take_length]
      exact tellsOf context values
    · exact tells_slotSteps context 0 _
  have breaks : Tells context
      ((SemanticError.ofReturn? (tree.returnCount? context) values.length).toList.map
        fun e => Step.violate ⟨e, span⟩) [] :=
    .violations _ _
  have rest : Tells context [] ((occurrencesOf context .surplus
      (values.drop (visitedCount tree context values))).map .used) :=
    tells_skip _ (by simp)
  have whole := breaks.append (visits.append rest)
  rw [List.append_nil, List.nil_append, ← List.map_append, ← returnSteps_eq] at whole
  exact whole

end Expr

/-! ## Statements -/

/-- The steps of a variable tell the identifiers of its first value and its declaration. -/
lemma Variable.tells (context : ScopeId) (v : Variable) :
    Tells context v.steps (v.mentions context) := by
  unfold Variable.steps Variable.mentions
  cases v.init? with
  | none => exact .declare
  | some e => exact (e.tells context false).append .declare

/-- The steps of variables tell what these mention, one after the other. -/
lemma Variable.tellsOf (context : ScopeId) (vs : List Variable) :
    Tells context (vs.flatMap Variable.steps) (vs.flatMap (Variable.mentions context)) := by
  induction vs with
  | nil => exact .nil
  | cons v vs ih =>
    rw [List.flatMap_cons, List.flatMap_cons]
    exact (v.tells context).append ih

/-- The steps of parameters tell their declarations. -/
lemma Parameter.tells (context : ScopeId) (ps : List Parameter) :
    Tells context (ps.map fun p => .declare p.declaration)
      (ps.map fun p => .declared context p.declaration) := by
  induction ps with
  | nil => exact .nil
  | cons p ps ih => exact Tells.declare.cons ih

/-- Imports are about no name. -/
lemma Expr.quiet_importSteps (es : List Expr) :
    ∀ step ∈ es.flatMap Expr.importSteps, step.isQuiet := by
  intro step h
  obtain ⟨e, _, he⟩ := List.mem_flatMap.mp h
  cases e with
  | literal l span =>
    obtain rfl := List.mem_singleton.mp he
    rfl
  | _ => cases he

/-- The steps of an import tell nothing. -/
lemma Expr.tells_importSteps (context : ScopeId) (es : List Expr) :
    Tells context (es.flatMap Expr.importSteps) [] :=
  .quietAll (Expr.quiet_importSteps es)

/-- The values of members are not visited. -/
lemma EnumMember.not_visited {context o} {ms : List EnumMember}
    (ho : o ∈ ms.flatMap fun m => m.value?.elim [] (·.occurrences context .memberValue false)) :
    ¬ o.isVisited := by
  obtain ⟨m, _, hm⟩ := List.mem_flatMap.mp ho
  cases hv : m.value? with
  | none =>
    rw [hv] at hm
    cases hm
  | some v =>
    rw [hv] at hm
    rw [Occurrence.isVisited, (Expr.place_of_mem_occurrences v hm).2]
    decide

/-- The steps of an enumeration tell its declaration, and not what its members are. -/
lemma Enumeration.tells (context : ScopeId) (e : Enumeration) :
    Tells context e.steps (e.mentions context) := by
  have exported : Tells context
      (if e.isExported then [.remark (.exportedEnumeration e.name)] else []) [] :=
    .remarkIf _ _
  have size : Tells context [.remark (.enumerationSize e.name e.members.length)] [] := .quiet rfl
  have duplicate : Tells context ((EnumMember.firstDuplicate? [] e.members).toList.map
      fun m => Step.violate ⟨.duplicateMember m.name e.name, m.span⟩) [] :=
    .violations _ _
  have values : Tells context [] ((e.members.flatMap fun m =>
      m.value?.elim [] (·.occurrences context .memberValue false)).map .used) :=
    .skipAll fun _ => EnumMember.not_visited
  have whole := exported.append ((Tells.declare (d := e.declaration)).append
    (size.append (duplicate.append values)))
  simpa [Enumeration.steps, Enumeration.mentions] using whole

mutual

/-- The steps of a statement tell what it mentions. -/
lemma Stmt.tells (tree : ScopeTree) (context : ScopeId) :
    ∀ s : Stmt, Tells context (s.steps tree context) (s.mentions tree context)
  | .expression e _ => e.tells context false
  | .imports specifiers _ => by
    have out : Tells context [] ((Expr.occurrencesOf context .imported specifiers).map .used) :=
      Expr.tells_skip specifiers (by simp)
    have whole := (Expr.tells_importSteps context specifiers).append out
    rw [List.append_nil] at whole
    exact whole
  | .variables declared _ => Variable.tellsOf context declared
  | .conditional test consequent alternate _ => by
    rw [Stmt.steps, Stmt.mentions]
    exact ((test.tells context false).append (Block.tellsOf tree context consequent)).append
      (Alternate.tells tree context alternate)
  | .function name parameters body isExported _ => by
    have exported : Tells context
        (if isExported then [.remark (.exportedFunction name)] else []) [] :=
      .remarkIf _ _
    have inside := Block.tells tree context body (Parameter.tells body.context parameters)
    rw [Stmt.steps, Stmt.mentions]
    exact exported.append (Tells.declare.cons inside)
  | .returns none _ => .nil
  | .returns (some values) span => Expr.tells_returnSteps tree context values span
  | .enumeration e _ => e.tells context

/-- Statements in a row tell their mentions in order. -/
lemma Stmt.tellsOf (tree : ScopeTree) (context : ScopeId) :
    ∀ ss : List Stmt, Tells context (Stmt.stepsOf tree context ss) (Stmt.mentionsOf tree context ss)
  | [] => .nil
  | s :: rest => by
    rw [Stmt.stepsOf, Stmt.mentionsOf]
    exact (Stmt.tells tree context s).append (Stmt.tellsOf tree context rest)

/-- The steps of a block tell, in its context, what comes first and then what it mentions. -/
lemma Block.tells (tree : ScopeTree) (outer : ScopeId) :
    ∀ (b : Block) {first ms}, Tells b.context first ms →
      Tells outer (b.steps tree first) (ms ++ b.mentions tree)
  | .mk context body _, first, ms, h => by
    rw [Block.steps, Block.mentions]
    exact .block (h.append (Stmt.tellsOf tree context body))

/-- A missing branch tells nothing. -/
lemma Block.tellsOf (tree : ScopeTree) (outer : ScopeId) :
    ∀ b : Option Block, Tells outer (Block.stepsOf tree b) (Block.mentionsOf tree b)
  | none => .nil
  | some b => Block.tells tree outer b .nil

/-- Further branches tell the mentions of their tests and blocks. -/
lemma Alternate.tells (tree : ScopeTree) (context : ScopeId) :
    ∀ a : Alternate, Tells context (a.steps tree) (a.mentions tree context)
  | .absent => .nil
  | .otherwise block => Block.tells tree context block .nil
  | .elseIf test consequent alternate => by
    rw [Alternate.steps, Alternate.mentions]
    exact ((test.tells context false).append (Block.tellsOf tree context consequent)).append
      (Alternate.tells tree context alternate)

end

/-- The steps of a program tell its mentions, in the context of its outermost block. -/
lemma Program.tells (p : Program) : Tells p.context p.steps p.mentions := by
  obtain ⟨⟨context, body, span⟩, tree⟩ := p
  exact Stmt.tellsOf tree context body

end FrontEnd
