import FrontEnd.Lexicon.Standard
import FrontEnd.Proofs.Analysis.Flattening
import FrontEnd.Proofs.Program.Neutral
import FrontEnd.Proofs.Program.Outermost

/-!
# Notes of an analysis

A pass that succeeds notes what there is to note about the program, in document order and nothing
else (`Program.notes_steps` for the steps, `Runs.notes_eq` for performing them). Apart from the
notes no step depends on an operator: a pass over a program with other operators stands where it
stood and does the same otherwise (`Setting.run_neutral`).

Main statement: `Program.analyze_notes`.
-/

namespace FrontEnd

/-! ## Known operators -/

/-- A kind is known exactly if an operator has it. -/
lemma Lexicon.knows_iff {lex : Lexicon} {kind : TokenKind} :
    lex.Knows kind ↔ (lex.operatorOf? kind).isSome := by
  have symbols : ["*", "/", "+", "-", ">", "<", "=", "%", "==", "."] =
      Operator.all.map Operator.symbol := rfl
  rw [Knows, symbols, operatorOf?, List.find?_isSome]
  simp

/-! ## Notes of steps -/

namespace Step

/-- What a step gives to note. -/
def note? (lex : Lexicon) : Step → Option Note
  | operate kind span => if lex.Knows kind then none else some (.unknownOperator kind span)
  | importLiteral value span => some (.importLiteral value span)
  | _ => none

/-- What steps give to note, in order. -/
def notes (lex : Lexicon) (steps : List Step) : List Note :=
  steps.filterMap (note? lex)

/-- The notes of two parts in a row. -/
@[simp]
lemma notes_append (lex : Lexicon) (first second : List Step) :
    notes lex (first ++ second) = notes lex first ++ notes lex second :=
  List.filterMap_append

/-- The notes of a step and of the steps after it. -/
lemma notes_cons (lex : Lexicon) (step : Step) (steps : List Step) :
    notes lex (step :: steps) = notes lex [step] ++ notes lex steps :=
  notes_append lex [step] steps

/-- A binary expression is noted if its operator is not known. -/
lemma notes_operate (lex : Lexicon) (kind : TokenKind) (span : Span) :
    notes lex [operate kind span] =
      if lex.Knows kind then [] else [.unknownOperator kind span] := by
  rw [notes, List.filterMap_cons, note?]
  split_ifs <;> rfl

/-- Steps that note nothing one by one note nothing together. -/
lemma notes_eq_nil {lex : Lexicon} {steps : List Step}
    (silent : ∀ step ∈ steps, step.note? lex = none) : notes lex steps = [] :=
  List.filterMap_eq_nil_iff.mpr silent

/-- Broken rules are not noted. -/
lemma notes_violations (lex : Lexicon) {α : Type} (f : α → Violation) (xs : List α) :
    notes lex (xs.map fun x => violate (f x)) = [] := by
  apply notes_eq_nil
  intro step h
  obtain ⟨_, _, rfl⟩ := List.mem_map.mp h
  rfl

/-- Nor is a remark that may be made. -/
lemma notes_remarkIf (lex : Lexicon) (told : Bool) (r : Remark) :
    notes lex (if told then [remark r] else []) = [] := by
  cases told <;> rfl

end Step

/-- A declaration notes nothing. -/
lemma Position.notes_declare (p : Position) (tree : ScopeTree) (d : Declaration) :
    Event.notes (p.declare tree d).2 = [] := by
  unfold Position.declare
  split
  · rfl
  · dsimp only
    split <;> rfl

/-- Performing a step tells what the step gives to note. -/
lemma Step.notes_perform {env p q es} {step : Step} (h : step.perform env p = .ok (q, es)) :
    Event.notes es = Step.notes env.lexicon [step] := by
  cases step with
  | enter s =>
    cases h
    rfl
  | leave =>
    rw [perform, Position.leave] at h
    split at h
    all_goals
      cases h
      rfl
  | declare d =>
    obtain rfl : (p.declare env.tree d).2 = es := congrArg Prod.snd (Except.ok.inj h)
    exact p.notes_declare env.tree d
  | use u =>
    rw [perform] at h
    split at h
    · cases h
    · cases h
      rfl
  | operate kind span =>
    rw [notes_operate]
    rw [perform] at h
    split at h
    · rename_i known
      cases h
      rw [if_pos (Lexicon.knows_iff.mpr known)]
      rfl
    · rename_i unknown
      cases h
      rw [if_neg fun known => unknown (Lexicon.knows_iff.mp known)]
      rfl
  | importLiteral value span =>
    cases h
    rfl
  | violate v =>
    rw [perform] at h
    split at h
    · cases h
      rfl
    · cases h
  | remark r =>
    cases h
    rfl

/-- A complete run notes what its steps note. -/
lemma Runs.notes_eq {env p q steps es} (rn : Runs env p steps es q) :
    Event.notes es = Step.notes env.lexicon steps := by
  induction rn with
  | nil => rfl
  | cons h _ ih =>
    rw [Event.notes, List.filterMap_append, Step.notes_cons, ← Step.notes_perform h, ← ih]
    rfl

/-! ## Notes of a program -/

variable {lex : Lexicon}

namespace Expr

mutual

/-- The steps of an expression give its unknown operators to note. -/
lemma notes_steps : ∀ (e : Expr) (isProperty : Bool),
    Step.notes lex (e.steps isProperty) = e.unknownOperators lex
  | literal _ _, _ => rfl
  | parameter _ _, _ => rfl
  | identifier _ _, _ => rfl
  | binary left kind right span, _ => by
    rw [steps, unknownOperators, Step.notes_append, Step.notes_cons, Step.notes_operate,
      notes_steps left, notes_steps right, List.append_assoc]
  | call callee arguments _, _ => by
    rw [steps, unknownOperators, Step.notes_append, notes_steps callee, notes_stepsOf arguments]
  | member object property _, _ => by
    rw [steps, unknownOperators, Step.notes_append, notes_steps object, notes_steps property]
  | array elements _, _ => notes_stepsOf elements

/-- Expressions in a row note their unknown operators in order. -/
lemma notes_stepsOf : ∀ es : List Expr,
    Step.notes lex (stepsOf es) = unknownOperatorsOf lex es
  | [] => rfl
  | e :: rest => by
    rw [stepsOf, unknownOperatorsOf, Step.notes_append, notes_steps e, notes_stepsOf rest]

end

/-- So do the values of a return, whatever slot they are for. -/
lemma notes_slotSteps (index : Nat) (es : List Expr) :
    Step.notes lex (slotSteps index es) = unknownOperatorsOf lex es := by
  induction es generalizing index with
  | nil => rfl
  | cons e rest ih =>
    rw [slotSteps, unknownOperatorsOf, Step.notes_cons, Step.notes_append, notes_steps, ih]
    rfl

/-- Of an import only a literal is noted. -/
lemma notes_importSteps (specifiers : List Expr) :
    Step.notes lex (specifiers.flatMap importSteps) =
      (specifiers.map (.imported, ·)).flatMap (notes lex) := by
  induction specifiers with
  | nil => rfl
  | cons e rest ih =>
    rw [List.flatMap_cons, Step.notes_append, ih]
    cases e <;> rfl

/-- All of several visited expressions note their unknown operators. -/
lemma notes_visited (es : List Expr) :
    (es.map (.visited, ·)).flatMap (notes lex) = unknownOperatorsOf lex es := by
  induction es with
  | nil => rfl
  | cons e rest ih => exact congrArg (e.unknownOperators lex ++ ·) ih

/-- Values beyond the slots of a return note nothing. -/
lemma notes_surplus (es : List Expr) : (es.map (.surplus, ·)).flatMap (notes lex) = [] := by
  induction es with
  | nil => rfl
  | cons e rest ih => exact ih

/-- Nor do the values of the members of an enumeration. -/
lemma notes_memberValue (es : List Expr) :
    (es.map (.memberValue, ·)).flatMap (notes lex) = [] := by
  induction es with
  | nil => rfl
  | cons e rest ih => exact ih

/-- A return gives the operators of its visited values to note. -/
lemma notes_returnSteps (tree : ScopeTree) (context : ScopeId) (values : List Expr)
    (span : Span) :
    Step.notes lex (returnSteps tree context values span) =
      (returnOutermost tree context values).flatMap (notes lex) := by
  have visits : Step.notes lex (valueSteps tree context values) =
      unknownOperatorsOf lex (values.take (visitedCount tree context values)) := by
    unfold valueSteps visitedCount
    split
    · rw [List.take_length, notes_stepsOf]
    · rw [notes_slotSteps]
  rw [returnSteps_eq, Step.notes_append, Step.notes_violations, visits, returnOutermost,
    List.flatMap_append, notes_visited, notes_surplus, List.append_nil, List.nil_append]

end Expr

/-- Variables note the unknown operators of their first values. -/
lemma Variable.notes_steps (vs : List Variable) :
    Step.notes lex (vs.flatMap Variable.steps) =
      (vs.flatMap Variable.outermost).flatMap (Expr.notes lex) := by
  induction vs with
  | nil => rfl
  | cons v vs ih =>
    rw [List.flatMap_cons, List.flatMap_cons, Step.notes_append, List.flatMap_append, ih]
    congr 1
    rw [Variable.steps, Variable.outermost, Step.notes_append]
    cases v.init? with
    | none => rfl
    | some e =>
      rw [Option.elim_some, e.notes_steps, Option.toList_some, List.map_cons, List.flatMap_cons]
      rfl

/-- An enumeration gives nothing to note, whatever its members are. -/
lemma Enumeration.notes_steps (e : Enumeration) :
    Step.notes lex e.steps = e.outermost.flatMap (Expr.notes lex) := by
  rw [Enumeration.steps, Step.notes_append, Step.notes_append, Step.notes_violations,
    Step.notes_remarkIf, Enumeration.outermost, Expr.notes_memberValue]
  rfl

mutual

/-- The steps of a statement note what its outermost expressions say. -/
lemma Stmt.notes_steps (tree : ScopeTree) (context : ScopeId) :
    ∀ s : Stmt, Step.notes lex (s.steps tree context) =
      (s.outermost tree context).flatMap (Expr.notes lex)
  | .expression e _ => by
    rw [Stmt.steps, Stmt.outermost, e.notes_steps, List.flatMap_singleton]
    rfl
  | .imports specifiers _ => Expr.notes_importSteps specifiers
  | .variables declared _ => Variable.notes_steps declared
  | .conditional test consequent alternate _ => by
    rw [Stmt.steps, Stmt.outermost, Step.notes_append, Step.notes_append, test.notes_steps,
      Block.notes_stepsOf tree consequent, Alternate.notes_steps tree alternate,
      List.flatMap_cons, List.flatMap_append, List.append_assoc]
    rfl
  | .function name parameters body isExported _ => by
    have declares : Step.notes lex (parameters.map fun p => .declare p.declaration) = [] :=
      Step.notes_eq_nil (by simp [Step.note?])
    rw [Stmt.steps, Stmt.outermost, Step.notes_append, Step.notes_remarkIf, Step.notes_cons,
      Block.notes_steps tree body, declares]
    rfl
  | .returns none _ => rfl
  | .returns (some values) span => Expr.notes_returnSteps tree context values span
  | .enumeration e _ => e.notes_steps

/-- So do those of statements in a row. -/
lemma Stmt.notes_stepsOf (tree : ScopeTree) (context : ScopeId) :
    ∀ ss : List Stmt, Step.notes lex (Stmt.stepsOf tree context ss) =
      (Stmt.outermostOf tree context ss).flatMap (Expr.notes lex)
  | [] => rfl
  | s :: rest => by
    rw [Stmt.stepsOf, Stmt.outermostOf, Step.notes_append, List.flatMap_append,
      Stmt.notes_steps tree context s, Stmt.notes_stepsOf tree context rest]

/-- A block gives to note what comes first in it, and then its own. -/
lemma Block.notes_steps (tree : ScopeTree) :
    ∀ (b : Block) (first : List Step), Step.notes lex (b.steps tree first) =
      Step.notes lex first ++ (b.outermost tree).flatMap (Expr.notes lex)
  | .mk context body _, first => by
    rw [Block.steps, Block.outermost, Step.notes_append, Step.notes_append, Step.notes_cons,
      Stmt.notes_stepsOf tree context body]
    exact List.append_nil _

/-- So do those of a branch that may be missing. -/
lemma Block.notes_stepsOf (tree : ScopeTree) :
    ∀ b : Option Block, Step.notes lex (Block.stepsOf tree b) =
      (Block.outermostOf tree b).flatMap (Expr.notes lex)
  | none => rfl
  | some b => Block.notes_steps tree b []

/-- So do those of further branches. -/
lemma Alternate.notes_steps (tree : ScopeTree) :
    ∀ a : Alternate, Step.notes lex (a.steps tree) =
      (a.outermost tree).flatMap (Expr.notes lex)
  | .absent => rfl
  | .otherwise block => Block.notes_steps tree block []
  | .elseIf test consequent alternate => by
    rw [Alternate.steps, Alternate.outermost, Step.notes_append, Step.notes_append,
      test.notes_steps, Block.notes_stepsOf tree consequent, Alternate.notes_steps tree alternate,
      List.flatMap_cons, List.flatMap_append, List.append_assoc]
    rfl

end

/-- The steps of a program give to note what there is to note about it. -/
lemma Program.notes_steps (p : Program) : Step.notes lex p.steps = p.notes lex := by
  obtain ⟨⟨context, body, _⟩, tree⟩ := p
  exact Stmt.notes_stepsOf tree context body

/-! ## Other operators -/

/-- The events that are no notes. -/
def Event.unnoted (es : List Event) : List Event :=
  es.filter fun e => e.note?.isNone

/-- The run without its notes. -/
def Run.unnoted (r : Run) : Run :=
  { r with events := Event.unnoted r.events }

/-- The analysis without its notes. -/
def Analysis.unnoted (a : Analysis) : Analysis :=
  { a with events := Event.unnoted a.events }

namespace Event

/-- Notes are dropped from two parts as from each. -/
@[simp]
lemma unnoted_append (es fs : List Event) : unnoted (es ++ fs) = unnoted es ++ unnoted fs :=
  List.filter_append es fs

/-- A note is no decision. -/
lemma resolutions_unnoted (es : List Event) : resolutions (unnoted es) = resolutions es := by
  rw [resolutions, unnoted, List.filterMap_filter]
  congr 1
  funext e
  cases e <;> rfl

/-- Without notes there are as many events of any other sort. -/
lemma countP_unnoted {f : Event → Bool} (noted : ∀ n, f (.noted n) = false) (es : List Event) :
    (unnoted es).countP f = es.countP f := by
  rw [unnoted, List.countP_filter]
  congr 1
  funext e
  cases e with
  | noted n => exact (noted n).symm ▸ rfl
  | _ => exact Bool.and_true _

end Event

namespace Analysis

/-- An analysis without its notes has the same decisions. -/
lemma resolutions_unnoted (a : Analysis) : a.unnoted.resolutions = a.resolutions :=
  Event.resolutions_unnoted a.events

/-- It has entered as many scopes. -/
lemma pushes_unnoted (a : Analysis) : a.unnoted.pushes = a.pushes :=
  Event.countP_unnoted (fun _ => rfl) a.events

/-- It has left as many scopes. -/
lemma pops_unnoted (a : Analysis) : a.unnoted.pops = a.pops :=
  Event.countP_unnoted (fun _ => rfl) a.events

end Analysis

namespace Setting

variable (env : Setting)

/-- An operator is at most noted. -/
lemma unnoted_run_operate (p : Position) (kind : TokenKind) (span : Span) (rest : List Step) :
    (env.run p (.operate kind span :: rest)).unnoted = (env.run p rest).unnoted := by
  rw [run, Step.perform]
  split_ifs <;> rfl

/-- The first step passes its position on, whatever follows. -/
lemma unnoted_run_cons {rest other : List Step}
    (same : ∀ q, (env.run q rest).unnoted = (env.run q other).unnoted) (p : Position)
    (step : Step) :
    (env.run p (step :: rest)).unnoted = (env.run p (step :: other)).unnoted := by
  rw [run, run]
  cases step.perform env p with
  | error v => rfl
  | ok result =>
    obtain ⟨q, es⟩ := result
    have later := same q
    simp only [Run.unnoted, Run.mk.injEq, Event.unnoted_append] at later ⊢
    obtain ⟨position, events, violation⟩ := later
    exact ⟨position, congrArg _ events, violation⟩

/-- Steps with one operator are performed as the steps are, apart from the notes. -/
lemma run_neutral (p : Position) (steps : List Step) :
    (env.run p (steps.map Step.neutral)).unnoted = (env.run p steps).unnoted := by
  induction steps generalizing p with
  | nil => rfl
  | cons step rest ih =>
    -- Only an operator is another step, and it goes nowhere.
    cases step with
    | operate kind span =>
      calc (env.run p (.operate default span :: rest.map Step.neutral)).unnoted
        _ = (env.run p (rest.map Step.neutral)).unnoted := env.unnoted_run_operate p _ _ _
        _ = (env.run p rest).unnoted := ih p
        _ = (env.run p (.operate kind span :: rest)).unnoted :=
          (env.unnoted_run_operate p _ _ _).symm
    | _ => exact env.unnoted_run_cons ih p _

/-- Going back after a broken rule notes nothing. -/
lemma runFlat_neutral (p : Position) (steps : List Step) :
    (env.runFlat p (steps.map Step.neutral)).unnoted = (env.runFlat p steps).unnoted := by
  have same := env.run_neutral p steps
  unfold runFlat
  generalize env.run p (steps.map Step.neutral) = r at same ⊢
  generalize env.run p steps = s at same ⊢
  obtain ⟨position, es, violation⟩ := r
  obtain ⟨_, fs, _⟩ := s
  simp only [Run.unnoted, Run.mk.injEq] at same
  obtain ⟨rfl, events, rfl⟩ := same
  cases violation with
  | none => exact congrArg (Run.mk position · none) events
  | some v => simp only [Run.unnoted, Event.unnoted_append, events]

end Setting

namespace Program

/-- Up to its notes, a traversal is blind to operators. -/
lemma traverse_neutral (p : Program) (lex : Lexicon) (policy : Policy) :
    (p.neutral.traverse lex policy).unnoted = (p.traverse lex policy).unnoted := by
  have start : p.neutral.start = p.start := by
    rw [Program.start, p.context_neutral]
    rfl
  rw [traverse_eq, traverse_eq, start, p.steps_neutral]
  exact (p.setting lex policy).runFlat_neutral _ _

/-- But for notes, a pass does not depend on the operators. -/
lemma result_neutral (p : Program) (lex : Lexicon) (policy : Policy) :
    (p.neutral.analyze lex policy).result.map Analysis.unnoted =
      (p.analyze lex policy).result.map Analysis.unnoted := by
  have same := p.traverse_neutral lex policy
  unfold analyze
  generalize p.neutral.traverse lex policy = r at same ⊢
  generalize p.traverse lex policy = s at same ⊢
  obtain ⟨position, es, violation⟩ := r
  obtain ⟨_, fs, _⟩ := s
  simp only [Run.unnoted, Run.mk.injEq] at same
  obtain ⟨rfl, events, rfl⟩ := same
  cases violation with
  | none =>
    exact congrArg (fun es => Except.ok (Analysis.mk es position.overlay position.scope)) events
  | some v => rfl

/-- The accesses that a pass writes do not depend on the operators. -/
lemma program_neutral (p : Program) (lex : Lexicon) (policy : Policy) :
    (p.neutral.analyze lex policy).program = (p.analyze lex policy).program.neutral := by
  have same : Event.resolutions (p.neutral.traverse lex policy).events =
      Event.resolutions (p.traverse lex policy).events := by
    rw [← Event.resolutions_unnoted, ← Event.resolutions_unnoted (p.traverse lex policy).events]
    exact congrArg (fun r => Event.resolutions r.events) (p.traverse_neutral lex policy)
  show p.neutral.annotate ((Event.resolutions _).map _) =
    (p.annotate ((Event.resolutions _).map _)).neutral
  rw [same, p.annotate_neutral]

/-- Programs that differ in operators alone have one result, apart from the notes. -/
lemma result_eq_of_neutral {p q : Program} (h : q.neutral = p.neutral) (lex : Lexicon)
    (policy : Policy) :
    (q.analyze lex policy).result.map Analysis.unnoted =
      (p.analyze lex policy).result.map Analysis.unnoted := by
  rw [← q.result_neutral, h, p.result_neutral]

/-- A pass that succeeds notes what the program says. -/
lemma notes_analyze {p : Program} {lex policy a} (ok : (p.analyze lex policy).result = .ok a) :
    a.notes = p.notes lex := by
  obtain ⟨_, rn, _, _⟩ := runs_of_analyze ok
  exact rn.notes_eq.trans p.notes_steps

/-- A pass that succeeds notes the unknown operators of the visited expressions and the literals
among the imports, in document order, and nothing else; the names of the program are those of the
outermost expressions and stand where these do. With other operators a pass writes the same
accesses, breaks the same rule or none, and finds the same but for the notes. -/
theorem analyze_notes (p : Program) (lex : Lexicon) (policy : Policy) :
    p.occurrences.map Occurrence.placed = p.outermost.flatMap Expr.standings ∧
    (∀ a, (p.analyze lex policy).result = .ok a → a.notes = p.notes lex) ∧
    ∀ q : Program, q.neutral = p.neutral →
      (q.analyze lex policy).program.neutral = (p.analyze lex policy).program.neutral ∧
      (∀ v, (p.analyze lex policy).result = .error v → (q.analyze lex policy).result = .error v) ∧
      ∀ a, (p.analyze lex policy).result = .ok a →
        ∃ b, (q.analyze lex policy).result = .ok b ∧ b.resolutions = a.resolutions ∧
          b.overlay = a.overlay ∧ b.pushes = a.pushes ∧ b.pops = a.pops ∧
          b.finalScope = a.finalScope := by
  refine ⟨p.placed_occurrences, fun a ok => notes_analyze ok, ?_⟩
  intro q h
  have same := result_eq_of_neutral h lex policy
  refine ⟨?_, ?_, ?_⟩
  · rw [← q.program_neutral, h, p.program_neutral]
  · intro v failed
    rw [failed] at same
    cases hq : (q.analyze lex policy).result with
    | error w =>
      rw [hq] at same
      exact same
    | ok b =>
      rw [hq] at same
      cases same
  · intro a ok
    rw [ok] at same
    cases hq : (q.analyze lex policy).result with
    | error v =>
      rw [hq] at same
      cases same
    | ok b =>
      rw [hq] at same
      have eq : b.unnoted = a.unnoted := Except.ok.inj same
      refine ⟨b, rfl, ?_, (Analysis.mk.inj eq).2.1, ?_, ?_, (Analysis.mk.inj eq).2.2⟩
      · rw [← b.resolutions_unnoted, eq, a.resolutions_unnoted]
      · rw [← b.pushes_unnoted, eq, a.pushes_unnoted]
      · rw [← b.pops_unnoted, eq, a.pops_unnoted]

end Program

/-- An import of a literal, an expression with one operator three times, a function that returns a
value too many, and an enumeration. The operator stands in all of them. -/
def operating (kind : TokenKind) : Program :=
  let scopes := ScopeTree.empty.openFunction .root [⟨none, none⟩]
  let name (index : Nat) : Expr := .ofName "x" ⟨index, index + 1⟩
  let operated (index : Nat) : Expr := .ofBinary (name index) kind (name (index + 1))
  let body := .mk scopes.1 [.returns (some [operated 7, operated 9]) .origin] .origin
  ⟨.mk .root [.imports [.literal ⟨.string, "m"⟩ ⟨0, 1⟩, operated 1] .origin,
      .expression (.ofBinary (operated 3) kind (operated 5)) .origin,
      .function "f" [] body false .origin,
      .enumeration ⟨"e", [⟨"a", some (operated 11), .origin⟩], false⟩ .origin] .origin, scopes.2⟩

/-- A plus is known to the lexicon. With a kind that is not, the operators of the visited
expressions are noted after the import, and the names are decided about in the same way. -/
theorem operating_analyze_notes :
    let lex := Lexicon.empty.enlist "+"
    ∃ a b, ((operating ⟨16⟩).analyze lex .permissive).result = .ok a ∧
      ((operating ⟨900⟩).analyze lex .permissive).result = .ok b ∧
      a.notes = [.importLiteral "m" ⟨0, 1⟩] ∧
      b.notes = [.importLiteral "m" ⟨0, 1⟩, .unknownOperator ⟨900⟩ ⟨3, 5⟩,
        .unknownOperator ⟨900⟩ ⟨3, 7⟩, .unknownOperator ⟨900⟩ ⟨5, 7⟩,
        .unknownOperator ⟨900⟩ ⟨7, 9⟩] ∧
      b.resolutions = a.resolutions := by
  intro lex
  obtain ⟨-, noted, others⟩ := (operating ⟨16⟩).analyze_notes lex .permissive
  obtain ⟨-, notedOther, -⟩ := (operating ⟨900⟩).analyze_notes lex .permissive
  have ok : ((operating ⟨16⟩).analyze lex .permissive).result = .ok _ := rfl
  obtain ⟨b, okOther, same, -⟩ := (others (operating ⟨900⟩) rfl).2.2 _ ok
  refine ⟨_, b, ok, okOther, (noted _ ok).trans ?_, (notedOther b okOther).trans ?_, same⟩
  · decide +kernel
  · decide +kernel

end FrontEnd
