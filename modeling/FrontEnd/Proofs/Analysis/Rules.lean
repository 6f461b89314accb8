import FrontEnd.Proofs.Program.Content
import Mathlib.Data.List.Nodup

/-!
# The rules of the strict policy

Which programs have steps that break a rule, whatever the traversal finds out about names. A return
with values must stand in a function and have as many values as the function declares, or one if
it declares none. The members of an enumeration must have different names.

Main statement: `Program.clean_iff`, no step of a program breaks a rule exactly when its returns fit
and its members differ.
-/

namespace FrontEnd

/-- Steps none of which breaks a rule. -/
def Step.Clean (steps : List Step) : Prop :=
  ∀ v, Step.violate v ∉ steps

namespace Step

/-- Without steps no rule is broken. -/
lemma clean_nil : Clean [] := by
  intro v h
  cases h

/-- Two parts break no rule if neither does. -/
lemma clean_append {first second : List Step} :
    Clean (first ++ second) ↔ Clean first ∧ Clean second := by
  constructor
  · intro h
    exact ⟨fun v hv => h v (List.mem_append_left _ hv),
      fun v hv => h v (List.mem_append_right _ hv)⟩
  · rintro ⟨hf, hs⟩ v hv
    rcases List.mem_append.mp hv with hv | hv
    · exact hf v hv
    · exact hs v hv

/-- A step that is no broken rule, before others. -/
lemma clean_cons {step : Step} {rest : List Step} :
    Clean (step :: rest) ↔ (∀ v, step ≠ .violate v) ∧ Clean rest := by
  constructor
  · intro h
    exact ⟨fun v e => h v (by simp [e]), fun v hv => h v (List.mem_cons_of_mem _ hv)⟩
  · rintro ⟨hs, hr⟩ v hv
    rcases List.mem_cons.mp hv with e | hv
    · exact hs v e.symm
    · exact hr v hv

/-- A remark that may be made breaks no rule. -/
lemma clean_remarkIf (told : Bool) (r : Remark) : Clean (if told then [.remark r] else []) := by
  split
  · exact clean_cons.mpr ⟨nofun, clean_nil⟩
  · exact clean_nil

/-- Broken rules are clean exactly if there are none. -/
lemma clean_map_violate {α : Type} (f : α → Violation) (broken : Option α) :
    Clean (broken.toList.map fun x => .violate (f x)) ↔ broken = none := by
  cases broken with
  | none => simpa using clean_nil
  | some x =>
    refine ⟨fun h => ?_, nofun⟩
    exact absurd (by simp) (h (f x))

end Step

/-! ## Expressions -/

namespace Expr

mutual

/-- The steps of an expression break no rule of this kind. -/
lemma clean : ∀ (isProperty : Bool) (e : Expr), Step.Clean (e.steps isProperty)
  | _, literal _ _ => Step.clean_nil
  | _, parameter _ _ => Step.clean_nil
  | _, identifier _ _ => Step.clean_cons.mpr ⟨nofun, Step.clean_nil⟩
  | _, binary left _ right _ => by
    rw [steps, Step.clean_append, Step.clean_cons]
    exact ⟨clean false left, nofun, clean false right⟩
  | _, call callee arguments _ => by
    rw [steps, Step.clean_append]
    exact ⟨clean false callee, cleanOf arguments⟩
  | _, member object property _ => by
    rw [steps, Step.clean_append]
    exact ⟨clean false object, clean true property⟩
  | _, array elements _ => cleanOf elements

/-- Expressions in a row break no rule; whether a name is declared is found out later. -/
lemma cleanOf : ∀ es : List Expr, Step.Clean (stepsOf es)
  | [] => Step.clean_nil
  | e :: rest => by
    rw [stepsOf, Step.clean_append]
    exact ⟨clean false e, cleanOf rest⟩

end

/-- Nor do the values of a return by themselves. -/
lemma clean_slotSteps (index : Nat) (es : List Expr) : Step.Clean (slotSteps index es) := by
  induction es generalizing index with
  | nil => exact Step.clean_nil
  | cons e rest ih =>
    rw [slotSteps, Step.clean_cons, Step.clean_append]
    exact ⟨nofun, clean false e, ih (index + 1)⟩

/-- Nor do imports. -/
lemma clean_importSteps (es : List Expr) : Step.Clean (es.flatMap importSteps) := by
  intro v hv
  obtain ⟨e, _, he⟩ := List.mem_flatMap.mp hv
  cases e with
  | literal l span => simp [importSteps] at he
  | _ => cases he

end Expr

/-! ## Returns and enumerations -/

/-- A return in a block with this context stands in a function, and has as many values as that
declares, or one if it declares none. -/
def ScopeTree.ReturnFits (tree : ScopeTree) (context : ScopeId) (values : List Expr) : Prop :=
  ∃ f, tree.nearest? context .function = some f ∧
    values.length = max 1 (tree.returns f).length

/-- The names of the members differ from each other. -/
def Enumeration.MembersDiffer (e : Enumeration) : Prop :=
  (e.members.map EnumMember.name).Nodup

/-- A return breaks no rule exactly if it has as many values as its function returns. -/
lemma SemanticError.ofReturn?_eq_none_iff {declared? : Option Nat} {found : Nat} :
    ofReturn? declared? found = none ↔ ∃ declared, declared? = some declared ∧
      found = max declared 1 := by
  cases declared? with
  | none => simp [ofReturn?]
  | some declared =>
    by_cases h : found = max declared 1
    · simp [ofReturn?, h]
    · simp [ofReturn?, h]

/-- The steps of a return are clean exactly if it fits. -/
lemma Expr.clean_returnSteps_iff (tree : ScopeTree) (context : ScopeId) (values : List Expr)
    (span : Span) :
    Step.Clean (returnSteps tree context values span) ↔ tree.ReturnFits context values := by
  have visits : Step.Clean (valueSteps tree context values) := by
    unfold valueSteps
    split
    · exact cleanOf values
    · exact clean_slotSteps 0 _
  have fits : SemanticError.ofReturn? (tree.returnCount? context) values.length = none ↔
      tree.ReturnFits context values := by
    rw [SemanticError.ofReturn?_eq_none_iff]
    simp only [ScopeTree.returnCount?, ScopeTree.ReturnFits, Option.map_eq_some_iff, Nat.max_comm 1]
    constructor
    · rintro ⟨_, ⟨f, hf, rfl⟩, hl⟩
      exact ⟨f, hf, hl⟩
    · rintro ⟨f, hf, hl⟩
      exact ⟨_, ⟨f, hf, rfl⟩, hl⟩
  rw [returnSteps_eq, Step.clean_append, Step.clean_map_violate (fun e => ⟨e, span⟩), fits]
  exact and_iff_left visits

/-- No member is a duplicate exactly if the names differ from each other and from those seen. -/
lemma EnumMember.firstDuplicate?_eq_none_iff (seen : List String) (ms : List EnumMember) :
    firstDuplicate? seen ms = none ↔
      (ms.map EnumMember.name).Nodup ∧ ∀ m ∈ ms, m.name ∉ seen := by
  -- The names passed so far join those seen, hence the second condition.
  induction ms generalizing seen with
  | nil => simp [firstDuplicate?]
  | cons m ms ih =>
    by_cases hm : m.name ∈ seen
    · simp [firstDuplicate?, hm]
    · have hc : seen.contains m.name = false := by simpa using hm
      rw [firstDuplicate?, hc, if_neg (by simp), ih, List.map_cons, List.nodup_cons]
      constructor
      · rintro ⟨hn, hs⟩
        refine ⟨⟨fun h => ?_, hn⟩, ?_⟩
        · obtain ⟨x, hx, e⟩ := List.mem_map.mp h
          exact hs x hx (by simp [e])
        · intro x hx
          rcases List.mem_cons.mp hx with rfl | hx
          · exact hm
          · exact fun h => hs x hx (List.mem_cons_of_mem _ h)
      · rintro ⟨⟨hd, hn⟩, hs⟩
        refine ⟨hn, fun x hx h => ?_⟩
        rcases List.mem_cons.mp h with e | h
        · exact hd (List.mem_map.mpr ⟨x, hx, e⟩)
        · exact hs x (List.mem_cons_of_mem _ hx) h

/-- The steps of an enumeration are clean exactly if its members differ. -/
lemma Enumeration.clean_iff (e : Enumeration) : Step.Clean e.steps ↔ e.MembersDiffer := by
  have exported : Step.Clean
      (if e.isExported then [.remark (.exportedEnumeration e.name)] else []) :=
    Step.clean_remarkIf _ _
  have told : Step.Clean
      [.declare e.declaration, .remark (.enumerationSize e.name e.members.length)] :=
    Step.clean_cons.mpr ⟨nofun, Step.clean_cons.mpr ⟨nofun, Step.clean_nil⟩⟩
  rw [Enumeration.steps, Step.clean_append, Step.clean_append,
    Step.clean_map_violate (fun m : EnumMember => ⟨.duplicateMember m.name e.name, m.span⟩),
    EnumMember.firstDuplicate?_eq_none_iff]
  constructor
  · rintro ⟨_, hn, _⟩
    exact hn
  · intro hn
    exact ⟨⟨exported, told⟩, hn, fun _ _ => by simp⟩

/-! ## Statements -/

/-- What the rules ask of a statement in a block with this context, apart from those inside it. -/
def Stmt.Lawful (tree : ScopeTree) (context : ScopeId) : Stmt → Prop
  | .returns (some values) _ => tree.ReturnFits context values
  | .enumeration e _ => e.MembersDiffer
  | _ => True

/-- All of some statements, each in a block with its context, are as the rules ask. -/
def Stmt.AllLawful (tree : ScopeTree) (statements : List (ScopeId × Stmt)) : Prop :=
  ∀ entry ∈ statements, entry.2.Lawful tree entry.1

/-- Two lists of statements keep the rules if both do. -/
lemma Stmt.allLawful_append {tree : ScopeTree} {first second : List (ScopeId × Stmt)} :
    Stmt.AllLawful tree (first ++ second) ↔
      Stmt.AllLawful tree first ∧ Stmt.AllLawful tree second :=
  List.forall_mem_append

/-- A statement and the others keep the rules if it does and they do. -/
lemma Stmt.allLawful_cons {tree : ScopeTree} {context : ScopeId} {s : Stmt}
    {rest : List (ScopeId × Stmt)} :
    Stmt.AllLawful tree ((context, s) :: rest) ↔
      s.Lawful tree context ∧ Stmt.AllLawful tree rest :=
  List.forall_mem_cons

/-- Variables break no rule. -/
lemma Variable.clean (vs : List Variable) : Step.Clean (vs.flatMap Variable.steps) := by
  intro v hv
  obtain ⟨x, _, hx⟩ := List.mem_flatMap.mp hv
  unfold Variable.steps at hx
  rcases List.mem_append.mp hx with hx | hx
  · cases hi : x.init? with
    | none =>
      rw [hi] at hx
      cases hx
    | some e =>
      rw [hi] at hx
      exact e.clean false v hx
  · simp at hx

/-- Parameters break no rule. -/
lemma Parameter.clean (ps : List Parameter) :
    Step.Clean (ps.map fun p => .declare p.declaration) := by
  intro v hv
  obtain ⟨_, _, e⟩ := List.mem_map.mp hv
  cases e

mutual

/-- The steps of a statement are clean exactly if it and those inside it are as the rules ask. -/
lemma Stmt.clean_iff (tree : ScopeTree) (context : ScopeId) :
    ∀ s : Stmt, Step.Clean (s.steps tree context) ↔
      s.Lawful tree context ∧ Stmt.AllLawful tree s.inner
  | .expression e _ => iff_of_true (e.clean false) ⟨trivial, nofun⟩
  | .imports specifiers _ => iff_of_true (Expr.clean_importSteps specifiers) ⟨trivial, nofun⟩
  | .variables declared _ => iff_of_true (Variable.clean declared) ⟨trivial, nofun⟩
  | .conditional test consequent alternate _ => by
    rw [Stmt.steps, Step.clean_append, Step.clean_append, Block.cleanOf_iff tree consequent,
      Alternate.clean_iff tree alternate, Stmt.inner, Stmt.allLawful_append]
    simp [test.clean false, Stmt.Lawful]
  | .function name parameters body isExported _ => by
    have exported : Step.Clean
        (if isExported then [.remark (.exportedFunction name)] else []) :=
      Step.clean_remarkIf _ _
    rw [Stmt.steps, Step.clean_append, Step.clean_cons,
      Block.clean_iff tree body (Parameter.clean parameters), Stmt.inner]
    simp [exported, Stmt.Lawful]
  | .returns none _ => iff_of_true Step.clean_nil ⟨trivial, nofun⟩
  | .returns (some values) span => by
    rw [Stmt.steps, Option.elim, Expr.clean_returnSteps_iff]
    exact (and_iff_left nofun).symm
  | .enumeration e _ => by
    rw [Stmt.steps, e.clean_iff]
    exact (and_iff_left nofun).symm

/-- The steps of statements are clean exactly if they and those inside them are as the rules ask. -/
lemma Stmt.cleanOf_iff (tree : ScopeTree) (context : ScopeId) :
    ∀ ss : List Stmt, Step.Clean (Stmt.stepsOf tree context ss) ↔
      Stmt.AllLawful tree (Stmt.statementsOf context ss)
  | [] => iff_of_true Step.clean_nil nofun
  | s :: rest => by
    rw [Stmt.stepsOf, Step.clean_append, Stmt.clean_iff tree context s,
      Stmt.cleanOf_iff tree context rest, Stmt.statementsOf, Stmt.allLawful_append,
      Stmt.allLawful_cons]

/-- The steps of a block are clean exactly if its statements are as the rules ask. -/
lemma Block.clean_iff (tree : ScopeTree) :
    ∀ (b : Block) {first : List Step}, Step.Clean first →
      (Step.Clean (b.steps tree first) ↔ Stmt.AllLawful tree b.statements)
  | .mk context body _, first, hf => by
    have opened : Step.Clean (.enter context :: first) := Step.clean_cons.mpr ⟨nofun, hf⟩
    have closed : Step.Clean [.leave] := Step.clean_cons.mpr ⟨nofun, Step.clean_nil⟩
    rw [Block.steps, Step.clean_append, Step.clean_append, Stmt.cleanOf_iff tree context body,
      Block.statements, and_iff_left closed, and_iff_right opened]

/-- A branch that may be missing breaks no rule exactly if its statements keep them. -/
lemma Block.cleanOf_iff (tree : ScopeTree) :
    ∀ b : Option Block, Step.Clean (Block.stepsOf tree b) ↔
      Stmt.AllLawful tree (Block.statementsOf b)
  | none => iff_of_true Step.clean_nil nofun
  | some b => Block.clean_iff tree b Step.clean_nil

/-- So it is for further branches. -/
lemma Alternate.clean_iff (tree : ScopeTree) :
    ∀ a : Alternate, Step.Clean (a.steps tree) ↔ Stmt.AllLawful tree a.statements
  | .absent => iff_of_true Step.clean_nil nofun
  | .otherwise block => Block.clean_iff tree block Step.clean_nil
  | .elseIf test consequent alternate => by
    rw [Alternate.steps, Step.clean_append, Step.clean_append, Block.cleanOf_iff tree consequent,
      Alternate.clean_iff tree alternate, Alternate.statements, Stmt.allLawful_append]
    simp [test.clean false]

end

namespace Program

/-- Every return with values, wherever it stands, fits its function. -/
def ReturnsFit (p : Program) : Prop :=
  ∀ context values span, (context, .returns (some values) span) ∈ p.statements →
    p.scopes.ReturnFits context values

/-- Every enumeration, wherever it stands, has members that differ. -/
def MembersDiffer (p : Program) : Prop :=
  ∀ context e span, (context, .enumeration e span) ∈ p.statements → e.MembersDiffer

/-- No step of a program breaks a rule exactly when its returns fit and its members differ. -/
lemma clean_iff (p : Program) : Step.Clean p.steps ↔ p.ReturnsFit ∧ p.MembersDiffer := by
  obtain ⟨⟨context, body, span⟩, tree⟩ := p
  rw [show steps ⟨.mk context body span, tree⟩ = Stmt.stepsOf tree context body from rfl,
    Stmt.cleanOf_iff tree context body]
  constructor
  · intro h
    exact ⟨fun c values s hs => h _ hs, fun c e s hs => h _ hs⟩
  · rintro ⟨hr, hm⟩ ⟨c, s⟩ hs
    cases s with
    | returns argument span =>
      cases argument with
      | none => trivial
      | some values => exact hr c values span hs
    | enumeration e span => exact hm c e span hs
    | _ => trivial

end Program

end FrontEnd
