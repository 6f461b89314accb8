import FrontEnd.Proofs.Analysis.Flattening
import FrontEnd.Proofs.Program.Content
import FrontEnd.Proofs.Program.Renaming
import Mathlib.Data.List.Basic

/-!
# Analysis is equivariant under renaming

The pass over a renamed program is the renamed pass. Names are only compared for equality: the steps
of a renamed program are the renamed steps (`Program.steps_rename`), and a renamed step does
what the step does, renamed (`Step.perform_rename`), if different names stay different.

Main statement: `Program.analyze_rename`.
-/

namespace FrontEnd

/-! ## Renamed steps and events -/

section

variable (f : String → String)

def Use.rename (u : Use) : Use :=
  { u with name := f u.name }

def SemanticError.rename : SemanticError → SemanticError
  | undefinedIdentifier name => undefinedIdentifier (f name)
  | returnOutsideFunction => returnOutsideFunction
  | returnCount expected found => returnCount expected found
  | duplicateMember member enumeration => duplicateMember (f member) (f enumeration)

def Violation.rename (v : Violation) : Violation :=
  { v with error := v.error.rename f }

def Remark.rename : Remark → Remark
  | exportedFunction name => exportedFunction (f name)
  | exportedEnumeration name => exportedEnumeration (f name)
  | returnSlot index => returnSlot index
  | enumerationSize name members => enumerationSize (f name) members

def Step.rename : Step → Step
  | enter scope => enter scope
  | leave => leave
  | declare d => declare (d.rename f)
  | use u => use (u.rename f)
  | operate kind span => operate kind span
  | importLiteral value span => importLiteral value span
  | violate v => violate (v.rename f)
  | remark r => remark (r.rename f)

def Resolution.rename (r : Resolution) : Resolution :=
  { r with name := f r.name }

def Event.rename : Event → Event
  | entered scope origin => entered scope origin
  | left scope target => left scope target
  | bound d scope => bound (d.rename f) scope
  | redeclared name scope => redeclared (f name) scope
  | kept name scope => kept (f name) scope
  | resolved r scope => resolved (r.rename f) scope
  | noted n => noted n
  | remarked r => remarked (r.rename f)

def Overlay.rename (o : Overlay) : Overlay :=
  ⟨o.entries.map fun entry => (entry.1, entry.2.rename f)⟩

def Position.rename (p : Position) : Position :=
  { p with overlay := p.overlay.rename f }

def Setting.rename (env : Setting) : Setting :=
  { env with tree := env.tree.rename f }

def Run.rename (r : Run) : Run :=
  ⟨r.position.rename f, r.events.map (Event.rename f), r.violation?.map (Violation.rename f)⟩

def Analysis.rename (a : Analysis) : Analysis :=
  ⟨a.events.map (Event.rename f), a.overlay.rename f, a.finalScope⟩

end

variable {f : String → String}

/-! ## The steps of a renamed program -/

namespace Expr

mutual

/-- The steps of a renamed expression are the renamed steps. -/
lemma steps_rename : ∀ (e : Expr) (isProperty : Bool),
    (e.rename f).steps isProperty = (e.steps isProperty).map (Step.rename f)
  | literal _ _, _ => rfl
  | parameter _ _, _ => rfl
  | identifier _ _, _ => rfl
  | binary left _ right _, _ => by
    simp only [rename, steps, List.map_append, List.map_cons]
    rw [steps_rename left, steps_rename right]
    rfl
  | call callee arguments _, _ => by
    simp only [rename, steps, List.map_append]
    rw [steps_rename callee, stepsOf_rename arguments]
  | member object property _, _ => by
    simp only [rename, steps, List.map_append]
    rw [steps_rename object, steps_rename property]
  | array elements _, _ => by
    simp only [rename, steps]
    rw [stepsOf_rename elements]

/-- So it is for expressions in a row. -/
lemma stepsOf_rename : ∀ es : List Expr,
    stepsOf (renameOf f es) = (stepsOf es).map (Step.rename f)
  | [] => rfl
  | e :: rest => by
    simp only [renameOf, stepsOf, List.map_append]
    rw [steps_rename e, stepsOf_rename rest]

end

/-- So it is for the values of a return, slot by slot. -/
lemma slotSteps_rename (index : Nat) (es : List Expr) :
    slotSteps index (es.map (rename f)) = (slotSteps index es).map (Step.rename f) := by
  induction es generalizing index with
  | nil => rfl
  | cons e es ih =>
    rw [List.map_cons, slotSteps, slotSteps, steps_rename, ih, List.map_cons, List.map_append]
    rfl

/-- An imported literal is no name and stays as it is. -/
lemma importSteps_rename (e : Expr) :
    (e.rename f).importSteps = e.importSteps.map (Step.rename f) := by
  cases e <;> rfl

end Expr

/-- Functions return as many values as before. -/
lemma ScopeTree.returnCount?_rename (t : ScopeTree) (s : ScopeId) :
    (t.rename f).returnCount? s = t.returnCount? s := by
  unfold returnCount?
  rw [nearest?_rename]
  simp only [returns_rename]

/-- The rules about returns name no names. -/
lemma SemanticError.rename_of_ofReturn? {declared? found e}
    (h : SemanticError.ofReturn? declared? found = some e) : e.rename f = e := by
  cases declared? with
  | none =>
    cases h
    rfl
  | some declared =>
    rw [SemanticError.ofReturn?] at h
    split at h
    · cases h
    · cases h
      rfl

/-- A return breaks the same rule, since slots are counted and not named. -/
lemma Expr.returnSteps_rename (tree : ScopeTree) (context : ScopeId) (values : List Expr)
    (span : Span) :
    returnSteps (tree.rename f) context (renameOf f values) span =
      (returnSteps tree context values span).map (Step.rename f) := by
  have visited : valueSteps (tree.rename f) context (renameOf f values) =
      (valueSteps tree context values).map (Step.rename f) := by
    rw [valueSteps, valueSteps, ScopeTree.returnCount?_rename, stepsOf_rename, renameOf_eq_map,
      ← List.map_take, slotSteps_rename, apply_ite (List.map (Step.rename f))]
  rw [returnSteps_eq, returnSteps_eq, visited, ScopeTree.returnCount?_rename, renameOf_eq_map,
    List.length_map, List.map_append]
  congr 1
  cases h : SemanticError.ofReturn? (tree.returnCount? context) values.length with
  | none => rfl
  | some e =>
    show [Step.violate ⟨e, span⟩] = [Step.violate ⟨e.rename f, span⟩]
    rw [SemanticError.rename_of_ofReturn? h]

/-- A renamed variable declares the other name after its renamed first value. -/
lemma Variable.steps_rename (v : Variable) :
    (v.rename f).steps = v.steps.map (Step.rename f) := by
  obtain ⟨name, isReference, isPointer, init⟩ := v
  cases init with
  | none => rfl
  | some e =>
    show (e.rename f).steps false ++ _ = (e.steps false ++ _).map (Step.rename f)
    rw [e.steps_rename, List.map_append]
    rfl

/-- The renamed names repeat where the names do. -/
lemma EnumMember.firstDuplicate?_rename (inj : Function.Injective f) (seen : List String)
    (ms : List EnumMember) :
    firstDuplicate? (seen.map f) (ms.map (EnumMember.rename f)) =
      (firstDuplicate? seen ms).map (EnumMember.rename f) := by
  induction ms generalizing seen with
  | nil => rfl
  | cons m ms ih =>
    have again : (seen.map f).contains (m.rename f).name = seen.contains m.name := by
      rw [Bool.eq_iff_iff, List.contains_iff_mem, List.contains_iff_mem]
      exact List.mem_map_of_injective inj
    have rest := ih (m.name :: seen)
    rw [List.map_cons] at rest
    rw [List.map_cons, firstDuplicate?, firstDuplicate?, again,
      apply_ite (Option.map (EnumMember.rename f)), ← rest]
    rfl

/-- Members that differ do so under other names, so that the same member is the first duplicate. -/
lemma Enumeration.steps_rename (inj : Function.Injective f) (e : Enumeration) :
    (e.rename f).steps = e.steps.map (Step.rename f) := by
  obtain ⟨name, members, isExported⟩ := e
  have duplicate : EnumMember.firstDuplicate? [] (members.map (EnumMember.rename f)) =
      (EnumMember.firstDuplicate? [] members).map (EnumMember.rename f) :=
    EnumMember.firstDuplicate?_rename inj [] members
  simp only [Enumeration.steps, Enumeration.rename, duplicate, List.length_map]
  cases isExported <;> cases EnumMember.firstDuplicate? [] members <;> rfl

mutual

/-- The steps of a renamed statement are the renamed steps. -/
lemma Stmt.steps_rename (inj : Function.Injective f) (tree : ScopeTree) (context : ScopeId) :
    ∀ s : Stmt, (s.rename f).steps (tree.rename f) context =
      (s.steps tree context).map (Step.rename f)
  | .expression e _ => e.steps_rename false
  | .imports specifiers _ => by
    simp only [Stmt.rename, Stmt.steps, Expr.renameOf_eq_map, List.flatMap_map, List.map_flatMap,
      Expr.importSteps_rename]
  | .variables declared _ => by
    simp only [Stmt.rename, Stmt.steps, List.flatMap_map, List.map_flatMap,
      Variable.steps_rename]
  | .conditional test consequent alternate _ => by
    simp only [Stmt.rename, Stmt.steps, List.map_append]
    rw [test.steps_rename, Block.stepsOf_rename inj tree consequent,
      Alternate.steps_rename inj tree alternate]
  | .function name parameters body isExported _ => by
    have declared : (parameters.map (Parameter.rename f)).map
          (fun p => Step.declare p.declaration) =
        (parameters.map fun p => .declare p.declaration).map (Step.rename f) := by
      rw [List.map_map, List.map_map]
      rfl
    rw [Stmt.rename, Stmt.steps, declared, Block.steps_rename inj tree body, Stmt.steps,
      List.map_append]
    cases isExported <;> rfl
  | .returns none _ => rfl
  | .returns (some values) span => Expr.returnSteps_rename tree context values span
  | .enumeration e _ => e.steps_rename inj

/-- So it is for statements in a row. -/
lemma Stmt.stepsOf_rename (inj : Function.Injective f) (tree : ScopeTree) (context : ScopeId) :
    ∀ ss : List Stmt, Stmt.stepsOf (tree.rename f) context (Stmt.renameOf f ss) =
      (Stmt.stepsOf tree context ss).map (Step.rename f)
  | [] => rfl
  | s :: rest => by
    rw [Stmt.renameOf, Stmt.stepsOf, Stmt.stepsOf, List.map_append,
      Stmt.steps_rename inj tree context s, Stmt.stepsOf_rename inj tree context rest]

/-- So it is for a block, with renamed steps first in it. -/
lemma Block.steps_rename (inj : Function.Injective f) (tree : ScopeTree) :
    ∀ (b : Block) (first : List Step),
      (b.rename f).steps (tree.rename f) (first.map (Step.rename f)) =
        (b.steps tree first).map (Step.rename f)
  | .mk context body _, first => by
    rw [Block.rename, Block.steps, Block.steps, Stmt.stepsOf_rename inj tree context body,
      List.map_append, List.map_append]
    rfl

/-- So it is for a branch that may be missing. -/
lemma Block.stepsOf_rename (inj : Function.Injective f) (tree : ScopeTree) :
    ∀ b : Option Block, Block.stepsOf (tree.rename f) (Block.renameOf f b) =
      (Block.stepsOf tree b).map (Step.rename f)
  | none => rfl
  | some b => Block.steps_rename inj tree b []

/-- So it is for further branches. -/
lemma Alternate.steps_rename (inj : Function.Injective f) (tree : ScopeTree) :
    ∀ a : Alternate, (a.rename f).steps (tree.rename f) = (a.steps tree).map (Step.rename f)
  | .absent => rfl
  | .otherwise block => Block.steps_rename inj tree block []
  | .elseIf test consequent alternate => by
    simp only [Alternate.rename, Alternate.steps, List.map_append]
    rw [test.steps_rename, Block.stepsOf_rename inj tree consequent,
      Alternate.steps_rename inj tree alternate]

end

/-- The steps of a renamed program. -/
lemma Program.steps_rename (inj : Function.Injective f) (p : Program) :
    (p.rename f).steps = p.steps.map (Step.rename f) := by
  obtain ⟨⟨context, body, _⟩, tree⟩ := p
  exact Stmt.stepsOf_rename inj tree context body

/-! ## Renamed overlays -/

namespace Overlay

/-- Names kept apart are declared by the same entries. -/
lemma declares_rename (inj : Function.Injective f) (s : ScopeId) (name : String)
    (entry : ScopeId × Declaration) :
    declares s (f name) (entry.1, entry.2.rename f) = declares s name entry := by
  simp only [declares, Declaration.rename, inj.eq_iff]

/-- A renamed name has the renamed declaration. -/
lemma find?_rename (inj : Function.Injective f) (o : Overlay) (s : ScopeId) (name : String) :
    (o.rename f).find? s (f name) = (o.find? s name).map (Declaration.rename f) := by
  rw [find?, find?, Overlay.rename, List.find?_map]
  simp only [Function.comp_def, declares_rename inj, Option.map_map]

/-- A renamed declaration takes the place of the same earlier one. -/
lemma insert_rename (inj : Function.Injective f) (o : Overlay) (s : ScopeId) (d : Declaration) :
    (o.rename f).insert s (d.rename f) = (o.insert s d).rename f := by
  have others : ((o.rename f).entries.filter fun entry => !declares s (d.rename f).name entry) =
      (o.entries.filter fun entry => !declares s d.name entry).map
        fun entry => (entry.1, entry.2.rename f) := by
    rw [Overlay.rename, List.filter_map]
    congr 2
    funext entry
    exact congrArg _ (declares_rename inj s d.name entry)
  rw [insert, others]
  rfl

end Overlay

/-! ## Renamed positions -/

namespace Position

/-- Looking a renamed name up finds the renamed declaration. -/
lemma lookup?_rename (inj : Function.Injective f) (p : Position) (tree : ScopeTree)
    (name : String) :
    (p.rename f).lookup? (tree.rename f) (f name) =
      (p.lookup? tree name).map (Declaration.rename f) := by
  have declared : ∀ s, (p.rename f).declared? (tree.rename f) s (f name) =
      (p.declared? tree s name).map (Declaration.rename f) := by
    intro s
    rw [declared?, declared?, tree.declared?_rename inj, Position.rename,
      p.overlay.find?_rename inj]
    cases tree.declared? s name <;> rfl
  rw [lookup?, lookup?, ScopeTree.chain_rename, List.map_findSome?]
  congr 1
  funext s
  exact declared s

/-- Declaring a renamed name does the same, renamed. -/
lemma declare_rename (inj : Function.Injective f) (p : Position) (tree : ScopeTree)
    (d : Declaration) :
    (p.rename f).declare (tree.rename f) (d.rename f) =
      ((p.declare tree d).1.rename f, (p.declare tree d).2.map (Event.rename f)) := by
  have known : (tree.rename f).declared? (p.rename f).scope (d.rename f).name =
      (tree.declared? p.scope d.name).map (Declaration.rename f) :=
    tree.declared?_rename inj p.scope d.name
  have found : (p.rename f).overlay.find? (p.rename f).scope (d.rename f).name =
      (p.overlay.find? p.scope d.name).map (Declaration.rename f) :=
    p.overlay.find?_rename inj p.scope d.name
  have inserted : (p.rename f).overlay.insert (p.rename f).scope (d.rename f) =
      (p.overlay.insert p.scope d).rename f :=
    p.overlay.insert_rename inj p.scope d
  rw [declare, declare, known, found, inserted]
  cases tree.declared? p.scope d.name with
  | some _ => rfl
  | none => cases p.overlay.find? p.scope d.name <;> rfl

/-- Going back is the same, renamed. -/
lemma unwind_rename (depth : Nat) (p : Position) :
    (p.rename f).unwind depth =
      ((p.unwind depth).1.rename f, (p.unwind depth).2.map (Event.rename f)) := by
  show unwind.go depth (p.rename f) p.scope p.saved = _
  rw [unwind]
  generalize p.scope = scope
  induction p.saved generalizing scope with
  | nil => rfl
  | cons target saved ih =>
    rw [unwind.go, unwind.go]
    split
    · rfl
    · rw [ih target]
      rfl

end Position

/-! ## Renamed runs -/

/-- A use is decided about by what it finds, whatever the names are. -/
lemma Policy.resolve_rename (policy : Policy) (u : Use) (d : Option Declaration) :
    policy.resolve (u.rename f) (d.map (Declaration.rename f)) =
      (policy.resolve u d).mapError (Violation.rename f) := by
  have access : Access.classify (u.rename f).asPointer (d.map (Declaration.rename f)) =
      Access.classify u.asPointer d := by
    cases d <;> rfl
  rw [resolve, resolve, access, apply_ite (Except.mapError (Violation.rename f))]
  rfl

/-- The result of a step, renamed. -/
def Step.renameResult (f : String → String) :
    Except Violation (Position × List Event) → Except Violation (Position × List Event)
  | .error v => .error (v.rename f)
  | .ok (q, es) => .ok (q.rename f, es.map (Event.rename f))

/-- A renamed step does what the step does, renamed. -/
lemma Step.perform_rename (inj : Function.Injective f) (env : Setting) (p : Position)
    (step : Step) :
    (step.rename f).perform (env.rename f) (p.rename f) =
      Step.renameResult f (step.perform env p) := by
  cases step with
  | enter s => rfl
  | leave =>
    obtain ⟨scope, saved, overlay⟩ := p
    cases saved <;> rfl
  | declare d =>
    show Except.ok ((p.rename f).declare (env.tree.rename f) (d.rename f)) = _
    rw [p.declare_rename inj]
    rfl
  | use u =>
    have found : (env.rename f).policy.resolve (u.rename f)
          ((p.rename f).lookup? (env.rename f).tree (u.rename f).name) =
        (env.policy.resolve u (p.lookup? env.tree u.name)).mapError (Violation.rename f) := by
      rw [← Policy.resolve_rename, ← p.lookup?_rename inj]
      rfl
    rw [Step.rename, perform, perform, found]
    cases env.policy.resolve u (p.lookup? env.tree u.name) <;> rfl
  | operate kind span =>
    rw [Step.rename, perform, perform, apply_ite (renameResult f)]
    rfl
  | importLiteral value span => rfl
  | violate v =>
    obtain ⟨lexicon, policy, tree⟩ := env
    cases policy <;> rfl
  | remark r => rfl

namespace Setting

/-- Performing renamed steps is performing the steps, renamed. -/
lemma run_rename (inj : Function.Injective f) (env : Setting) (p : Position)
    (steps : List Step) :
    (env.rename f).run (p.rename f) (steps.map (Step.rename f)) = (env.run p steps).rename f := by
  induction steps generalizing p with
  | nil => rfl
  | cons step rest ih =>
    rw [List.map_cons, run, run, step.perform_rename inj env p]
    cases step.perform env p with
    | error v => rfl
    | ok result =>
      obtain ⟨q, es⟩ := result
      dsimp only [Step.renameResult]
      rw [ih q, Run.rename, Run.rename, List.map_append]

/-- Where a broken rule stops the renamed steps, they go back as the steps do. -/
lemma runFlat_rename (inj : Function.Injective f) (env : Setting) (p : Position)
    (steps : List Step) :
    (env.rename f).runFlat (p.rename f) (steps.map (Step.rename f)) =
      (env.runFlat p steps).rename f := by
  rw [runFlat, runFlat, env.run_rename inj]
  cases env.run p steps with
  | mk q es violation? =>
    cases violation? with
    | none => rfl
    | some v =>
      dsimp only [Run.rename, Option.map_some]
      rw [q.unwind_rename, List.map_append]
      rfl

end Setting

/-! ## Passes -/

namespace Analysis

/-- The decisions of a renamed analysis are the renamed decisions. -/
lemma resolutions_rename (a : Analysis) :
    (a.rename f).resolutions = a.resolutions.map (Resolution.rename f) := by
  rw [resolutions, resolutions, Analysis.rename, List.filterMap_map, List.map_filterMap]
  congr 1
  funext e
  cases e <;> rfl

/-- Notes name no names. -/
lemma notes_rename (a : Analysis) : (a.rename f).notes = a.notes := by
  rw [notes, notes, Analysis.rename, List.filterMap_map]
  congr 1
  funext e
  cases e <;> rfl

/-- Events are counted as before, if names do not count. -/
lemma countP_rename (a : Analysis) {counted : Event → Bool}
    (blind : ∀ e : Event, counted (e.rename f) = counted e) :
    (a.rename f).events.countP counted = a.events.countP counted := by
  rw [Analysis.rename, List.countP_map]
  exact congrArg (List.countP · a.events) (funext blind)

/-- As many scopes are entered. -/
lemma pushes_rename (a : Analysis) : (a.rename f).pushes = a.pushes :=
  a.countP_rename fun e => by cases e <;> rfl

/-- As many scopes are left. -/
lemma pops_rename (a : Analysis) : (a.rename f).pops = a.pops :=
  a.countP_rename fun e => by cases e <;> rfl

end Analysis

namespace Program

/-- The pass over a renamed program ends as the pass over the program, renamed. -/
lemma result_rename (inj : Function.Injective f) (p : Program) (lex : Lexicon)
    (policy : Policy) :
    ((p.rename f).analyze lex policy).result =
      ((p.analyze lex policy).result.mapError (Violation.rename f)).map (Analysis.rename f) := by
  have start : (p.rename f).start = p.start.rename f := by
    rw [Program.start, context_rename]
    rfl
  have traversed : (p.rename f).traverse lex policy = (p.traverse lex policy).rename f := by
    rw [traverse_eq, traverse_eq, start, p.steps_rename inj]
    exact (p.setting lex policy).runFlat_rename inj p.start p.steps
  rw [analyze, analyze, traversed]
  cases p.traverse lex policy with
  | mk q es violation? => cases violation? <;> rfl

/-- A pass is blind to names: over a program with other names, kept apart as before, it succeeds if
the pass over the program does and finds the same under the other names, and else stops at the same
place. -/
theorem analyze_rename {f : String → String} (inj : Function.Injective f) (p : Program)
    (lex : Lexicon) (policy : Policy) :
    ((∃ b, ((p.rename f).analyze lex policy).result = .ok b) ↔
      ∃ a, (p.analyze lex policy).result = .ok a) ∧
    (∀ a b, (p.analyze lex policy).result = .ok a →
      ((p.rename f).analyze lex policy).result = .ok b →
      b.resolutions = a.resolutions.map (fun r => ⟨f r.name, r.access, r.isMember, r.span⟩) ∧
      b.resolutions.map Resolution.rendered =
        a.resolutions.map (fun r => r.access.render (f r.name)) ∧
      b.notes = a.notes ∧ b.pushes = a.pushes ∧ b.pops = a.pops ∧
      b.finalScope = a.finalScope ∧
      ∀ s name, b.declaration? s (f name) = (a.declaration? s name).map (Declaration.rename f)) ∧
    ∀ v w, (p.analyze lex policy).result = .error v →
      ((p.rename f).analyze lex policy).result = .error w →
      w.span = v.span ∧ w.error = v.error.rename f := by
  have renamed := p.result_rename inj lex policy
  refine ⟨?_, ?_, ?_⟩
  · rw [renamed]
    cases (p.analyze lex policy).result with
    | error v =>
      constructor
      · rintro ⟨b, hb⟩
        cases hb
      · rintro ⟨a, ha⟩
        cases ha
    | ok a => exact ⟨fun _ => ⟨a, rfl⟩, fun _ => ⟨a.rename f, rfl⟩⟩
  · intro a b ok okf
    rw [renamed, ok] at okf
    obtain rfl : a.rename f = b := Except.ok.inj okf
    refine ⟨a.resolutions_rename, ?_, a.notes_rename, a.pushes_rename, a.pops_rename, rfl,
      a.overlay.find?_rename inj⟩
    rw [a.resolutions_rename, List.map_map]
    rfl
  · intro v w failed failedf
    rw [renamed, failed] at failedf
    obtain rfl : v.rename f = w := Except.error.inj failedf
    exact ⟨rfl, rfl⟩

end Program

/-- A reference, a use of it and of a name of the scope tree, and an enumeration with a member
twice. -/
def repeating : Program :=
  let members : List EnumMember := [⟨"m", none, ⟨3, 4⟩⟩, ⟨"n", none, ⟨4, 5⟩⟩, ⟨"m", none, ⟨5, 6⟩⟩]
  ⟨.mk .root [.variables [⟨"x", true, false, none⟩] .origin,
      .expression (.ofBinary (.ofName "x" ⟨1, 2⟩) ⟨16⟩ (.ofName "print" ⟨2, 3⟩)) .origin,
      .enumeration ⟨"e", members, false⟩ .origin] .origin,
    ⟨[⟨.global, [], [⟨"print", .func, false, false⟩], []⟩]⟩⟩

/-- With a letter before all names, the uses are decided about as before, and the strict pass stops
at the second of the two members. -/
theorem repeating_analyze_rename :
    Function.Injective (fun name => "q" ++ name) ∧
    (∃ a b, (repeating.analyze .empty .permissive).result = .ok a ∧
      ((repeating.rename fun name => "q" ++ name).analyze .empty .permissive).result = .ok b ∧
      b.resolutions = a.resolutions.map
        (fun r => ⟨"q" ++ r.name, r.access, r.isMember, r.span⟩)) ∧
    (repeating.analyze .empty .strict).result = .error ⟨.duplicateMember "m" "e", ⟨5, 6⟩⟩ ∧
    ∃ w, ((repeating.rename fun name => "q" ++ name).analyze .empty .strict).result = .error w ∧
      w.span = ⟨5, 6⟩ := by
  have inj : Function.Injective fun name => "q" ++ name := fun _ _ => (String.append_right_inj _).mp
  obtain ⟨same, found, -⟩ := repeating.analyze_rename inj .empty .permissive
  obtain ⟨both, -, stopped⟩ := repeating.analyze_rename inj .empty .strict
  obtain ⟨b, hb⟩ := same.mpr ⟨_, rfl⟩
  refine ⟨inj, ⟨_, b, rfl, hb, (found _ b rfl hb).1⟩, rfl, ?_⟩
  cases hw : ((repeating.rename fun name => "q" ++ name).analyze .empty .strict).result with
  | ok b =>
    obtain ⟨a, ha⟩ := both.mp ⟨b, hw⟩
    cases ha
  | error w => exact ⟨w, rfl, (stopped _ w rfl hw).1⟩

end FrontEnd
