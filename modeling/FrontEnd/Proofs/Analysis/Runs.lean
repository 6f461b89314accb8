import FrontEnd.Analysis.Basic
import Mathlib.Tactic.Common

/-!
# Complete runs

The relation `Runs` between two positions and the steps and events on the way from one to the other,
when no step breaks a rule. Performing steps is either such a run or one of their beginning, up to
a step that breaks a rule (`Setting.run_cases`).
-/

namespace FrontEnd

/-- A step that breaks no rule is performed before the others. -/
lemma Setting.run_cons {env : Setting} {p q step rest es}
    (h : step.perform env p = .ok (q, es)) :
    env.run p (step :: rest) =
      { env.run q rest with events := es ++ (env.run q rest).events } := by
  rw [Setting.run, h]

/-- Steps are performed one part after the other. -/
lemma Setting.run_append (env : Setting) (p : Position) (first second : List Step) :
    env.run p (first ++ second) = (env.run p first).andThen fun q => env.run q second := by
  induction first generalizing p with
  | nil => rfl
  | cons step rest ih =>
    rw [List.cons_append, run, run]
    cases step.perform env p with
    | error v => rfl
    | ok result =>
      obtain ⟨q, es⟩ := result
      dsimp only
      rw [ih, Run.andThen, Run.andThen]
      cases h : (env.run q rest).violation? with
      | none => simp
      | some v => simp [h]

/-- Performing steps from a position, each of them, with what they do and where they end. -/
inductive Runs (env : Setting) : Position → List Step → List Event → Position → Prop where
  | nil {p} :
    Runs env p [] [] p
  | cons {p q r step rest es fs} :
    step.perform env p = .ok (q, es) →
    Runs env q rest fs r →
    Runs env p (step :: rest) (es ++ fs) r

namespace Runs

/-- Runs compose at the position that they share. -/
lemma append {env p q r first second es fs} (rn : Runs env p first es q)
    (rm : Runs env q second fs r) : Runs env p (first ++ second) (es ++ fs) r := by
  induction rn with
  | nil => exact rm
  | cons h _ ih =>
    rw [List.cons_append, List.append_assoc]
    exact .cons h (ih rm)

/-- A run can be cut between any two steps. -/
lemma split {env p r first second gs} (rn : Runs env p (first ++ second) gs r) :
    ∃ q es fs, Runs env p first es q ∧ Runs env q second fs r ∧ gs = es ++ fs := by
  induction first generalizing p gs with
  | nil => exact ⟨p, [], gs, .nil, rn, rfl⟩
  | cons step first ih =>
    cases rn with
    | @cons _ o _ _ _ es gs h rn =>
      obtain ⟨q, fs, hs, left, right, rfl⟩ := ih rn
      exact ⟨q, es ++ fs, hs, .cons h left, right, by simp⟩

/-- A run of no steps stays where it is. -/
lemma nil_inv {env p q es} (rn : Runs env p [] es q) : q = p ∧ es = [] := by
  cases rn with
  | nil => exact ⟨rfl, rfl⟩

/-- A run of one step is that step. -/
lemma one_inv {env p q step es} (rn : Runs env p [step] es q) :
    step.perform env p = .ok (q, es) := by
  cases rn with
  | cons h rn =>
    obtain ⟨rfl, rfl⟩ := rn.nil_inv
    simpa using h

/-- A run of a block enters it, performs what is inside, and leaves it. -/
lemma block_inv {env p q inner steps es}
    (rn : Runs env p (.enter inner :: steps ++ [.leave]) es q) :
    ∃ o fs, Runs env (p.enter inner) steps fs o ∧ q = o.leave.1 ∧
      es = .entered inner p.scope :: fs ++ o.leave.2 := by
  cases rn with
  | cons enters rn =>
    cases enters
    obtain ⟨o, fs, gs, inside, last, rfl⟩ := rn.split
    have leaves : o.leave = (q, gs) := Except.ok.inj last.one_inv
    refine ⟨o, fs, inside, ?_⟩
    rw [leaves]
    exact ⟨rfl, rfl⟩

/-- A complete run is what performing the steps gives. -/
lemma run_eq {env : Setting} {p q steps es} (rn : Runs env p steps es q) :
    env.run p steps = ⟨q, es, none⟩ := by
  induction rn with
  | nil => rfl
  | cons h _ ih => rw [Setting.run_cons h, ih]

end Runs

/-- Performing steps is a complete run, or a complete run up to a step that breaks a rule. -/
lemma Setting.run_cases (env : Setting) (p : Position) (steps : List Step) :
    (∃ es q, Runs env p steps es q ∧ env.run p steps = ⟨q, es, none⟩) ∨
      ∃ first step rest es q v, steps = first ++ step :: rest ∧ Runs env p first es q ∧
        step.perform env q = .error v ∧ env.run p steps = ⟨q, es, some v⟩ := by
  induction steps generalizing p with
  | nil => exact .inl ⟨[], p, .nil, rfl⟩
  | cons step rest ih =>
    cases h : step.perform env p with
    | error v =>
      exact .inr ⟨[], step, rest, [], p, v, rfl, .nil, h, by rw [Setting.run, h]⟩
    | ok result =>
      obtain ⟨q, es⟩ := result
      obtain ⟨fs, r, rn, er⟩ | ⟨first, last, after, fs, r, v, rfl, rn, hv, er⟩ := ih q
      · exact .inl ⟨es ++ fs, r, .cons h rn, by rw [run_cons h, er]⟩
      · refine .inr ⟨step :: first, last, after, es ++ fs, r, v, rfl, .cons h rn, hv, ?_⟩
        rw [run_cons h, er]

/-! ## Steps -/

/-- A declaration is made in place. -/
lemma Position.scope_declare (p : Position) (tree : ScopeTree) (d : Declaration) :
    (p.declare tree d).1.scope = p.scope ∧ (p.declare tree d).1.saved = p.saved := by
  unfold Position.declare
  split <;> exact ⟨rfl, rfl⟩

/-- A use that is performed is classified by what it finds. -/
lemma Step.perform_use {env p q es} {u : Use} (h : (Step.use u).perform env p = .ok (q, es)) :
    q = p ∧ es = [.resolved ⟨u.name, .classify u.asPointer (p.lookup? env.tree u.name),
      u.isMember, u.span⟩ p.scope] := by
  rw [Step.perform] at h
  split at h
  · cases h
  · rename_i access ha
    simp only [Policy.resolve] at ha
    split at ha
    · cases ha
    · cases ha
      cases h
      exact ⟨rfl, rfl⟩

/-! ## Decisions and notes -/

/-- The decisions among events. -/
def Event.resolutions (es : List Event) : List Resolution :=
  es.filterMap Event.resolution?

/-- The notes among events. -/
def Event.notes (es : List Event) : List Note :=
  es.filterMap Event.note?

/-- The decisions of two parts in a row. -/
@[simp]
lemma Event.resolutions_append (es fs : List Event) :
    Event.resolutions (es ++ fs) = Event.resolutions es ++ Event.resolutions fs := by
  simp [Event.resolutions]

end FrontEnd
