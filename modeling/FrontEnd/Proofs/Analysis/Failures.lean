import FrontEnd.Proofs.Analysis.Itinerary
import FrontEnd.Proofs.Analysis.Layers

/-!
# Where a strict traversal fails

What goes wrong on the way of a strict traversal that makes no declaration, said by the scope tree
alone: an expression that has no spelling (`Expr.render?`), or a rule that the program breaks
elsewhere (`Moment.failure?`). Such a traversal stops at the first of these.

A traversal itself stops at steps, not at expressions. The two come together since an identifier is
always followed by its use (`Program.agrees`).

Main statement: `Program.strict_error_iff`.
-/

namespace FrontEnd

/-- The broken rule that an outcome is. -/
def Violation.of? {α : Type} : Except Violation α → Option Violation
  | .error v => some v
  | .ok _ => none

/-- The spelling of an identifier fails as the use of its name does. -/
lemma Expr.of?_render? (tree : ScopeTree) (s : ScopeId) (i : Identifier) (span : Span)
    (isProperty : Bool) :
    Violation.of? ((Expr.identifier i span).render? tree .strict s) =
      Violation.of? (Policy.strict.resolve ⟨i.name, i.isPointer, isProperty, span⟩
        (tree.lookup? s i.name)) := by
  -- Whether the use is a property does not matter to it.
  have same : Policy.strict.resolve ⟨i.name, i.isPointer, false, span⟩ (tree.lookup? s i.name) =
      Policy.strict.resolve ⟨i.name, i.isPointer, isProperty, span⟩ (tree.lookup? s i.name) := rfl
  rw [render?, same]
  cases Policy.strict.resolve _ _ <;> rfl

namespace Moment

/-- The scope of the innermost block around a moment. There is always one. -/
def scope (m : Moment) : ScopeId :=
  m.path.getLastD .root

/-- What goes wrong at a moment, going by the tree alone: an expression that has no spelling there,
or a broken rule. -/
def failure? (tree : ScopeTree) (m : Moment) : Option Violation :=
  match m with
  | node _ (.expression e) => Violation.of? (e.render? tree .strict m.scope)
  | step _ (.violate v) => some v
  | _ => none

/-- What stops a strict traversal without declarations of its own at a moment. -/
def stop? (tree : ScopeTree) (m : Moment) : Option Violation :=
  match m with
  | step _ (.use u) => Violation.of? (Policy.strict.resolve u (tree.lookup? m.scope u.name))
  | step _ (.violate v) => some v
  | _ => none

/-- Moments that go wrong at an expression first where they do so at a step. -/
def Agrees (tree : ScopeTree) (ms : List Moment) : Prop :=
  ms.findSome? (stop? tree) = ms.findSome? (failure? tree)

namespace Agrees

/-- Nothing goes wrong where nothing is visited. -/
lemma nil {tree} : Agrees tree [] := rfl

/-- One more moment, which stops a pass as the tree says. -/
lemma cons {tree m ms} (same : stop? tree m = failure? tree m) (ag : Agrees tree ms) :
    Agrees tree (m :: ms) := by
  unfold Agrees at *
  rw [List.findSome?_cons, List.findSome?_cons, same, ag]

/-- The first failure of two parts is that of the first part, or else of the second. -/
lemma append {tree ms ns} (ag : Agrees tree ms) (ah : Agrees tree ns) :
    Agrees tree (ms ++ ns) := by
  unfold Agrees at *
  rw [List.findSome?_append, List.findSome?_append, ag, ah]

/-- Parts in a row agree if each of them does. -/
lemma flatMap {α : Type} {tree} {ms : α → List Moment} (ag : ∀ x, Agrees tree (ms x)) :
    ∀ xs : List α, Agrees tree (xs.flatMap ms)
  | [] => nil
  | x :: xs => by
    rw [List.flatMap_cons]
    exact (ag x).append (flatMap ag xs)

/-- An identifier goes wrong where its use does. -/
lemma identifier {tree path ms i span isProperty} (ag : Agrees tree ms) :
    Agrees tree (.node path (.expression (.identifier i span)) ::
      .step path (.use ⟨i.name, i.isPointer, isProperty, span⟩) :: ms) := by
  have same : stop? tree (.step path (.use ⟨i.name, i.isPointer, isProperty, span⟩)) =
      failure? tree (.node path (.expression (.identifier i span))) :=
    (Expr.of?_render? tree _ i span isProperty).symm
  unfold Agrees at *
  rw [List.findSome?_cons_of_isNone rfl, List.findSome?_cons, same, ag, List.findSome?_cons]
  rfl

/-- Steps that use no name. -/
lemma steps {tree path} {ss : List Step} (h : ∀ s ∈ ss, ∀ u, s ≠ .use u) :
    Agrees tree (ss.map (.step path)) := by
  induction ss with
  | nil => exact .nil
  | cons s ss ih =>
    obtain ⟨hd, tl⟩ := List.forall_mem_cons.mp h
    refine cons ?_ (ih tl)
    cases s with
    | use u => exact absurd rfl (hd u)
    | _ => rfl

end Agrees

end Moment

open Moment (Agrees)

namespace Expr

mutual

/-- An expression fails where its first unseen name is used. -/
lemma agrees (tree : ScopeTree) (path : List ScopeId) :
    ∀ (isProperty : Bool) (e : Expr), Agrees tree (e.moments path isProperty)
  | _, literal _ _ => Agrees.nil.cons rfl
  | _, parameter _ _ => Agrees.nil.cons rfl
  | _, identifier _ _ => Agrees.nil.identifier
  | _, binary left _ right _ => by
    rw [moments]
    exact ((agrees tree path false left).append ((agrees tree path false right).cons rfl)).cons rfl
  | _, call callee arguments _ => by
    rw [moments]
    exact ((agrees tree path false callee).append (agreesOf tree path arguments)).cons rfl
  | _, member object property _ => by
    rw [moments]
    exact ((agrees tree path false object).append (agrees tree path true property)).cons rfl
  | _, array elements _ => by
    rw [moments]
    exact (agreesOf tree path elements).cons rfl

/-- So do expressions in a row. -/
lemma agreesOf (tree : ScopeTree) (path : List ScopeId) :
    ∀ es : List Expr, Agrees tree (momentsOf path es)
  | [] => .nil
  | e :: rest => by
    rw [momentsOf]
    exact (agrees tree path false e).append (agreesOf tree path rest)

end

/-- So do the values of a return, whatever slot they are for. -/
lemma agrees_slot (tree : ScopeTree) (path : List ScopeId) (index : Nat) (es : List Expr) :
    Agrees tree (slotMoments path index es) := by
  induction es generalizing index with
  | nil => exact .nil
  | cons e rest ih => exact ((agrees tree path false e).append (ih (index + 1))).cons rfl

/-- A return fails by its count of values, or else in one of them. -/
lemma agrees_return (tree : ScopeTree) (path : List ScopeId) (context : ScopeId)
    (values : List Expr) (span : Span) :
    Agrees tree (returnMoments tree path context values span) := by
  rw [returnMoments]
  refine Agrees.append (Agrees.steps ?_) ?_
  · intro step h u e
    obtain ⟨_, _, rfl⟩ := List.mem_map.mp h
    cases e
  · split
    · exact agreesOf tree path values
    · exact agrees_slot tree path 0 _

end Expr

/-- A variable fails in its first value. -/
lemma Variable.agrees (tree : ScopeTree) (path : List ScopeId) (v : Variable) :
    Agrees tree (v.moments path) := by
  unfold Variable.moments
  have declares : Agrees tree [.step path (.declare v.declaration)] := Agrees.nil.cons rfl
  cases v.init? with
  | none => exact declares.cons rfl
  | some e => exact ((e.agrees tree path false).append declares).cons rfl

/-- A parameter cannot fail. -/
lemma Parameter.agrees (tree : ScopeTree) (path : List ScopeId) (p : Parameter) :
    Agrees tree (p.moments path) :=
  (Agrees.nil.cons rfl).cons rfl

/-- An enumeration uses no name. -/
lemma Enumeration.no_use (e : Enumeration) : ∀ step ∈ e.steps, ∀ u, step ≠ .use u := by
  intro step h u
  simp only [steps, List.mem_append, List.mem_cons, List.mem_map, List.not_mem_nil, or_false] at h
  obtain (h | rfl | rfl) | ⟨_, _, rfl⟩ := h
  · split at h
    · obtain rfl := List.mem_singleton.mp h
      simp
    · cases h
  all_goals simp

mutual

/-- A statement fails where the tree says. -/
lemma Stmt.agrees (tree : ScopeTree) (outer : List ScopeId) (context : ScopeId) :
    ∀ s : Stmt, Agrees tree (s.moments tree outer context)
  | .expression e _ => (e.agrees tree _ false).cons rfl
  | .imports specifiers _ => by
    rw [Stmt.moments]
    refine (Agrees.steps ?_).cons rfl
    rintro step h u rfl
    cases Expr.quiet_importSteps specifiers _ h
  | .variables declared _ => (Agrees.flatMap (Variable.agrees tree _) declared).cons rfl
  | .conditional test consequent alternate _ => by
    rw [Stmt.moments]
    exact (((test.agrees tree _ false).append (Block.agreesOf tree _ consequent)).append
      (Alternate.agrees tree _ alternate)).cons rfl
  | .function name parameters body isExported _ => by
    have exported : Agrees tree ((if isExported then [.remark (.exportedFunction name)]
        else []).map (.step (outer ++ [context]))) := by
      cases isExported with
      | false => exact .nil
      | true => exact Agrees.nil.cons rfl
    have inside := Block.agrees tree (outer ++ [context]) body
      (Agrees.flatMap (Parameter.agrees tree (outer ++ [context] ++ [body.context])) parameters)
    rw [Stmt.moments]
    exact (exported.append (inside.cons rfl)).cons rfl
  | .returns none _ => Agrees.nil.cons rfl
  | .returns (some values) span => (Expr.agrees_return tree _ context values span).cons rfl
  | .enumeration e _ => (Agrees.steps e.no_use).cons rfl

/-- Statements fail where the first of them does that fails. -/
lemma Stmt.agreesOf (tree : ScopeTree) (outer : List ScopeId) (context : ScopeId) :
    ∀ ss : List Stmt, Agrees tree (Stmt.momentsOf tree outer context ss)
  | [] => .nil
  | s :: rest => by
    rw [Stmt.momentsOf]
    exact (Stmt.agrees tree outer context s).append (Stmt.agreesOf tree outer context rest)

/-- A block fails in what comes first in it, or else in its statements. -/
lemma Block.agrees (tree : ScopeTree) (path : List ScopeId) :
    ∀ (b : Block) {first}, Agrees tree first → Agrees tree (b.moments tree path first)
  | .mk context body _, _, ag => by
    rw [Block.moments]
    exact ((ag.append (Stmt.agreesOf tree path context body)).append
      (Agrees.nil.cons rfl)).cons rfl

/-- A missing branch cannot fail. -/
lemma Block.agreesOf (tree : ScopeTree) (path : List ScopeId) :
    ∀ b : Option Block, Agrees tree (Block.momentsOf tree path b)
  | none => .nil
  | some b => Block.agrees tree path b .nil

/-- Further branches fail in a test or in a block. -/
lemma Alternate.agrees (tree : ScopeTree) (path : List ScopeId) :
    ∀ a : Alternate, Agrees tree (a.moments tree path)
  | .absent => Agrees.nil.cons rfl
  | .otherwise block => (Block.agrees tree path block .nil).cons rfl
  | .elseIf test consequent alternate => by
    rw [Alternate.moments]
    exact (((test.agrees tree _ false).append (Block.agreesOf tree path consequent)).append
      (Alternate.agrees tree path alternate)).cons rfl

end

/-- A program goes wrong at an expression first where it does so at a step. -/
lemma Program.agrees (p : Program) : Agrees p.scopes p.moments :=
  Stmt.agreesOf p.scopes [] p.context p.block.body

/-! ## Traversals -/

/-- Steps that make no declaration, nor do the first of them. -/
def Setting.KeepsClear (env : Setting) (p : Position) (steps : List Step) : Prop :=
  ∀ first rest, steps = first ++ rest → (env.run p first).position.overlay = .empty

/-- Steps that declare nothing new still do so after the first of them. -/
lemma Setting.KeepsClear.tail {env : Setting} {p q step rest es}
    (clear : env.KeepsClear p (step :: rest)) (h : step.perform env p = .ok (q, es)) :
    env.KeepsClear q rest := by
  rintro first last rfl
  have here := clear (step :: first) last rfl
  rwa [Setting.run_cons h] at here

/-- A step stops a strict traversal without declarations as the tree says. -/
lemma Step.stop?_eq {env : Setting} (strict : env.policy = .strict) {p : Position}
    (clear : p.overlay = .empty) (step : Step) :
    (Moment.step p.path step).stop? env.tree = Violation.of? (step.perform env p) := by
  cases step with
  | use u =>
    have here : (Moment.step p.path (.use u)).scope = p.scope := by
      simp [Moment.scope, Moment.path, Position.path]
    rw [Moment.stop?, here, perform, strict, Position.lookup?_of_empty clear]
    cases Policy.strict.resolve _ _ <;> rfl
  | operate kind span =>
    rw [perform]
    split <;> rfl
  | violate v =>
    rw [perform, strict]
    rfl
  | _ => rfl

/-- A strict traversal goes on from a step that does not stop it. -/
lemma Setting.violation?_step {env : Setting} (strict : env.policy = .strict) {p step ms}
    (clear : p.overlay = .empty)
    (later : ∀ {q es}, step.perform env p = .ok (q, es) →
      (env.run q (Moment.steps ms)).violation? = ms.findSome? (Moment.stop? env.tree)) :
    (env.run p (step :: Moment.steps ms)).violation? =
      (Moment.step p.path step :: ms).findSome? (Moment.stop? env.tree) := by
  rw [List.findSome?_cons, Step.stop?_eq strict clear]
  cases h : step.perform env p with
  | error v =>
    rw [Setting.run, h]
    rfl
  | ok result =>
    obtain ⟨q, es⟩ := result
    rw [Setting.run_cons h]
    exact later h

/-- A strict traversal that makes no declaration stops at the first moment that the tree says. -/
lemma Leads.violation?_eq {path last ms} (ld : Leads path ms last) {env : Setting}
    (strict : env.policy = .strict) {p : Position} (hp : p.path = path)
    (clear : env.KeepsClear p (Moment.steps ms)) :
    (env.run p (Moment.steps ms)).violation? = ms.findSome? (Moment.stop? env.tree) := by
  induction ld generalizing p with
  | nil => rfl
  | node _ ih => exact ih hp clear
  | plain pl _ ih =>
    subst hp
    refine Setting.violation?_step strict (clear [] _ rfl) fun h => ?_
    exact ih (Step.path_plain pl h) (clear.tail h)
  | enter _ ih =>
    subst hp
    refine Setting.violation?_step strict (clear [] _ rfl) fun h => ?_
    have next := clear.tail h
    cases h
    exact ih (p.path_enter _) next
  | leave out _ ih =>
    rw [← hp]
    refine Setting.violation?_step strict (clear [] _ rfl) fun h => ?_
    exact ih (Step.path_leave out hp h) (clear.tail h)

/-- Going back does not change what stopped a traversal. -/
lemma Setting.violation?_runFlat (env : Setting) (p : Position) (steps : List Step) :
    (env.runFlat p steps).violation? = (env.run p steps).violation? := by
  unfold runFlat
  dsimp only
  split <;> rfl

/-- A strict pass that makes no declaration fails with what goes wrong first. -/
lemma Program.strict_error_iff {p : Program} {lex v}
    (clear : (p.setting lex .strict).KeepsClear p.start p.steps) :
    (p.analyze lex .strict).result = .error v ↔
      p.moments.findSome? (Moment.failure? p.scopes) = some v := by
  have stops : (p.traverse lex .strict).violation? =
      p.moments.findSome? (Moment.failure? p.scopes) := by
    rw [p.traverse_eq, Setting.violation?_runFlat]
    rw [← p.steps_moments] at clear ⊢
    exact (p.charts.leads.violation?_eq rfl rfl clear).trans p.agrees
  rw [← stops, analyze]
  cases (p.traverse lex .strict).violation? <;> simp

end FrontEnd
