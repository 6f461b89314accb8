import FrontEnd.Proofs.Scope.Operations

/-!
# Walks to the root

Scopes are numbered as they are opened and stay where they are (`frame?_after`), so a parent is
always older than its scope and a walk from parent to parent ends at the root. `Walks` is such a
walk round by round: it visits a scope, and goes on to the parent if the visit gives no answer. The
walks of a look-up, of the search for a kind of scope and of counting are all of this form.

Main statement: `after_ascends`.
-/

namespace FrontEnd.ScopeTree

/-! ## Numbers -/

/-- The number that an operation gives out. -/
def number? (t : ScopeTree) : Operation → Option ScopeId
  | .openScope parent kind => some (t.openScope parent kind).1
  | .openFunction parent returns => some (t.openFunction parent returns).1
  | .define _ _ | .bind _ _ => none

/-- The numbers that operations give out, one after the other. -/
def numbers (t : ScopeTree) : List Operation → List ScopeId
  | [] => []
  | op :: rest => (t.number? op).toList ++ (t.perform op).numbers rest

/-- A new scope makes a tree larger by one. -/
lemma size_openWith (t : ScopeTree) (parent : ScopeId) (kind : ScopeKind)
    (returns : List ReturnSlot) : (t.openWith parent kind returns).2.size = t.size + 1 :=
  List.length_append

/-- A number that is given out comes next after those of the scopes so far. -/
lemma numbers_perform (t : ScopeTree) (op : Operation) :
    (List.range t.size).map ScopeId.mk ++ (t.number? op).toList =
      (List.range (t.perform op).size).map ScopeId.mk := by
  cases op with
  | openScope parent kind =>
    rw [perform, openScope, size_openWith, List.range_succ, List.map_append]
    rfl
  | openFunction parent returns =>
    rw [perform, openFunction, size_openWith, List.range_succ, List.map_append]
    rfl
  | define s d =>
    rw [perform_define, size_bind]
    exact List.append_nil _
  | bind s d =>
    rw [perform, size_bind]
    exact List.append_nil _

/-- The numbers that a run of operations gives out follow those of the scopes so far,
with no gap. -/
lemma numbers_after (t : ScopeTree) (ops : List Operation) :
    (List.range t.size).map ScopeId.mk ++ t.numbers ops =
      (List.range (t.after ops).size).map ScopeId.mk := by
  induction ops generalizing t with
  | nil => exact List.append_nil _
  | cons op ops ih =>
    rw [numbers, ← List.append_assoc, numbers_perform]
    exact ih (t.perform op)

/-! ## What stays -/

/-- A scope without its declarations. -/
def frame? (t : ScopeTree) (s : ScopeId) : Option Scope :=
  (t.get? s).map fun scope => { scope with symbols := [] }

/-- The kind of a scope is part of its frame. -/
lemma kind?_eq_frame? (t : ScopeTree) (s : ScopeId) : t.kind? s = (t.frame? s).map Scope.kind := by
  unfold kind? frame?
  cases t.get? s <;> rfl

/-- So is its parent. -/
lemma parent?_eq_frame? (t : ScopeTree) (s : ScopeId) :
    t.parent? s = (t.frame? s).bind Scope.parent? := by
  unfold parent? frame?
  cases t.get? s <;> rfl

/-- So are its return slots. -/
lemma returns_eq_frame? (t : ScopeTree) (s : ScopeId) :
    t.returns s = (t.frame? s).elim [] Scope.returns := by
  unfold returns frame?
  cases t.get? s <;> rfl

/-- Binding a name changes nothing about a scope but its declarations. -/
lemma frame?_bind (t : ScopeTree) (s : ScopeId) (d : Declaration) (r : ScopeId) :
    (t.bind s d).2.frame? r = t.frame? r := by
  cases h : t.declared? s d.name with
  | some _ => rw [bind_of_some h]
  | none =>
    obtain ⟨extended, added, e⟩ := bind_of_none h
    rw [e, frame?, frame?, get?_define added]
    split
    · cases t.get? r <;> rfl
    · rfl

/-- No operation changes the frame of a scope that is there. -/
lemma frame?_perform {t : ScopeTree} {s : ScopeId} (inside : s.index < t.size) (op : Operation) :
    (t.perform op).frame? s = t.frame? s := by
  cases op with
  | openScope parent kind => exact congrArg _ (get?_openWith inside)
  | openFunction parent returns => exact congrArg _ (get?_openWith inside)
  | define r d =>
    rw [perform_define]
    exact t.frame?_bind r d s
  | bind r d => exact t.frame?_bind r d s

/-- No operation removes a scope. -/
lemma size_le_perform (t : ScopeTree) (op : Operation) : t.size ≤ (t.perform op).size := by
  cases op with
  | openScope parent kind =>
    rw [perform, openScope, size_openWith]
    exact Nat.le_succ _
  | openFunction parent returns =>
    rw [perform, openFunction, size_openWith]
    exact Nat.le_succ _
  | define r d =>
    rw [perform_define]
    exact Nat.le_of_eq (t.size_bind r d).symm
  | bind r d => exact Nat.le_of_eq (t.size_bind r d).symm

/-- Whatever is done later, a scope keeps all but its declarations. -/
lemma frame?_after {t : ScopeTree} {s : ScopeId} (inside : s.index < t.size)
    (ops : List Operation) : (t.after ops).frame? s = t.frame? s := by
  induction ops generalizing t with
  | nil => rfl
  | cons op ops ih =>
    have still : s.index < (t.perform op).size := Nat.lt_of_lt_of_le inside (t.size_le_perform op)
    exact (ih still).trans (frame?_perform inside op)

/-! ## Walks -/

/-- Visits scopes from a scope outward until a visit gives an answer. Each visit is a round. -/
inductive Walks (t : ScopeTree) {α : Type} (visit : ScopeId → Option α) :
    Option ScopeId → Nat → Option α → Prop where
  | over :
    Walks t visit none 0 none
  | found {s a} :
    visit s = some a →
    Walks t visit (some s) 1 (some a)
  | next {s rounds answer} :
    visit s = none →
    Walks t visit (t.parent? s) rounds answer →
    Walks t visit (some s) (rounds + 1) answer

namespace Built

variable {t : ScopeTree}

/-- No walk outward goes on for ever. -/
lemma wellFounded (b : Built t) : WellFounded fun r s => t.parent? s = some r :=
  Subrelation.wf b.parent_lt (measure ScopeId.index).wf

/-- A walk is over after at most as many rounds as there are scopes up to its first one, and its
answer is that of the first scope on the way outward that gives one. -/
lemma walks (b : Built t) {α : Type} (visit : ScopeId → Option α) (s : ScopeId) :
    ∃ rounds ≤ s.index + 1, t.Walks visit (some s) rounds ((t.chain s).findSome? visit) := by
  induction s using b.wellFounded.induction with
  | _ s ih =>
    rw [b.chain_eq s, List.findSome?_cons]
    cases here : visit s with
    | some a => exact ⟨1, Nat.le_add_left 1 _, .found here⟩
    | none =>
      cases up : t.parent? s with
      | none =>
        refine ⟨1, Nat.le_add_left 1 _, .next here ?_⟩
        rw [up]
        exact .over
      | some r =>
        obtain ⟨rounds, few, wk⟩ := ih r up
        refine ⟨rounds + 1, Nat.succ_le_succ (Nat.le_trans few (b.parent_lt up)), .next here ?_⟩
        rw [up]
        exact wk

/-- The search for a kind of scope is a walk, with no more rounds than there are scopes up to its
start. -/
lemma walks_nearest (b : Built t) (kind : ScopeKind) (s : ScopeId) :
    ∃ rounds ≤ s.index + 1,
      t.Walks (Option.guard (t.kind? · = some kind)) (some s) rounds (t.nearest? s kind) := by
  rw [nearest?, List.find?_eq_findSome?_guard]
  exact b.walks _ s

/-- A scope has one more scope around it than its parent. -/
lemma depth_eq (b : Built t) (s : ScopeId) :
    t.depth s = (t.parent? s).elim 0 fun r => t.depth r + 1 := by
  have around : t.enclosing s = (t.parent? s).elim [] t.chain :=
    List.tail_eq_of_cons_eq (b.chain_eq s)
  rw [depth, around]
  cases t.parent? s <;> rfl

/-- A scope has no more scopes around it than there are older ones. -/
lemma depth_le (b : Built t) (s : ScopeId) : t.depth s ≤ s.index := by
  induction s using b.wellFounded.induction with
  | _ s ih =>
    rw [b.depth_eq]
    cases up : t.parent? s with
    | none => exact Nat.zero_le _
    | some r => exact Nat.lt_of_le_of_lt (ih r up) (b.parent_lt up)

/-- The depth of a scope is how many rounds it takes to visit the scopes around it. -/
lemma walks_depth (b : Built t) (s : ScopeId) :
    t.Walks (fun _ => (none : Option Unit)) (t.parent? s) (t.depth s) none := by
  induction s using b.wellFounded.induction with
  | _ s ih =>
    rw [b.depth_eq]
    cases up : t.parent? s with
    | none => exact .over
    | some r => exact .next rfl (ih r up)

/-- The root alone has no parent. -/
lemma parent?_eq_none_iff (b : Built t) {s : ScopeId} (inside : s.index < t.size) :
    t.parent? s = none ↔ s = .root := by
  have as := b.ascends inside
  generalize t.chain s = way at as
  cases as with
  | root alone => exact ⟨fun _ => rfl, fun _ => alone⟩
  | parent up _ =>
    constructor
    · intro alone
      cases alone.symm.trans up
    · rintro rfl
      exact absurd (b.parent_lt up) (Nat.not_lt_zero _)

end Built

/-- The nearest scope of a kind is the first one of that kind on the way outward. -/
lemma nearest?_eq_some_iff {t : ScopeTree} {s r : ScopeId} {kind : ScopeKind} :
    t.nearest? s kind = some r ↔
      t.kind? r = some kind ∧ ∃ before after, t.chain s = before ++ r :: after ∧
        ∀ q ∈ before, t.kind? q ≠ some kind := by
  rw [nearest?, List.find?_eq_some_iff_append]
  simp

/-- The search for a kind of scope fails if there is none on the way outward. -/
lemma nearest?_eq_none_iff {t : ScopeTree} {s : ScopeId} {kind : ScopeKind} :
    t.nearest? s kind = none ↔ ∀ r ∈ t.chain s, t.kind? r ≠ some kind := by
  rw [nearest?, List.find?_eq_none]
  simp

/-! ## Runs -/

/-- The scopes of a tree that operations made are numbered from the root on, and keep their kind,
their parent and their return values. Only the root has no parent, and other parents are older than
their scopes. So the walks of a look-up, of the search for a kind and of counting end, with
these answers: the depth of a scope is one more than that of its parent, and the nearest scope of a
kind is the first one of that kind on the walk to the root. -/
theorem after_ascends {ops : List Operation} (issued : empty.Issued ops) :
    let t := empty.after ops
    .root :: empty.numbers ops = (List.range t.size).map ScopeId.mk ∧
    (WellFounded fun r s => t.parent? s = some r) ∧
    t.depth .root = 0 ∧
    ∀ s, s.index < t.size →
      (∀ more, (t.after more).kind? s = t.kind? s ∧ (t.after more).parent? s = t.parent? s ∧
        (t.after more).returns s = t.returns s) ∧
      (t.parent? s = none ↔ s = .root) ∧
      (∀ r, t.parent? s = some r → r.index < s.index ∧ t.depth s = t.depth r + 1) ∧
      t.depth s ≤ s.index ∧
      t.Walks (fun _ => (none : Option Unit)) (t.parent? s) (t.depth s) none ∧
      (∀ name, ∃ rounds ≤ s.index + 1,
        t.Walks (t.declared? · name) (some s) rounds (t.lookup? s name)) ∧
      t.Ascends s (t.chain s) ∧
      ∀ kind,
        (∃ rounds ≤ s.index + 1,
          t.Walks (Option.guard (t.kind? · = some kind)) (some s) rounds (t.nearest? s kind)) ∧
        (∀ r, t.nearest? s kind = some r ↔
          t.kind? r = some kind ∧ ∃ before after, t.chain s = before ++ r :: after ∧
            ∀ q ∈ before, t.kind? q ≠ some kind) ∧
        (t.nearest? s kind = none ↔ ∀ r ∈ t.chain s, t.kind? r ≠ some kind) := by
  intro t
  have b : Built t := Built.empty.after issued
  refine ⟨empty.numbers_after ops, b.wellFounded, Nat.le_zero.mp (b.depth_le .root), ?_⟩
  intro s inside
  refine ⟨?_, b.parent?_eq_none_iff inside, ?_, b.depth_le s, b.walks_depth s,
    fun name => b.walks _ s, b.ascends inside,
    fun kind => ⟨b.walks_nearest kind s, fun _ => nearest?_eq_some_iff, nearest?_eq_none_iff⟩⟩
  · intro more
    have kept := frame?_after inside more
    exact ⟨by rw [kind?_eq_frame?, kept, ← kind?_eq_frame?],
      by rw [parent?_eq_frame?, kept, ← parent?_eq_frame?],
      by rw [returns_eq_frame?, kept, ← returns_eq_frame?]⟩
  · intro r up
    refine ⟨b.parent_lt up, ?_⟩
    rw [b.depth_eq s, up]
    rfl

/-- A block in a function, and another one beside the function. -/
def adjoining : List Operation :=
  [.openFunction .root [⟨none, some "int"⟩], .openScope ⟨1⟩ .block,
    .define ⟨2⟩ ⟨"x", .var, false, false⟩, .openScope .root .block]

/-- From the inner block the function is near, and the other block has none around it. -/
theorem adjoining_after_ascends :
    empty.Issued adjoining ∧
    empty.numbers adjoining = [⟨1⟩, ⟨2⟩, ⟨3⟩] ∧
    (empty.after adjoining).depth ⟨2⟩ = (empty.after adjoining).depth ⟨1⟩ + 1 ∧
    (∀ more, ((empty.after adjoining).after more).returns ⟨1⟩ = [⟨none, some "int"⟩]) ∧
    (empty.after adjoining).nearest? ⟨2⟩ .function = some ⟨1⟩ ∧
    (empty.after adjoining).nearest? ⟨3⟩ .function = none := by
  have issued : empty.Issued adjoining := by
    refine ⟨?_, ?_, ?_, ?_, trivial⟩ <;> decide
  obtain ⟨numbered, -, -, placed⟩ := after_ascends issued
  obtain ⟨kept, -⟩ := placed ⟨1⟩ (by decide)
  obtain ⟨-, -, parent, -, -, -, -, near⟩ := placed ⟨2⟩ (by decide)
  obtain ⟨-, -, -, -, -, -, -, far⟩ := placed ⟨3⟩ (by decide)
  refine ⟨issued, (List.cons.inj numbered).2, (parent ⟨1⟩ rfl).2,
    fun more => (kept more).2.2, ?_, ?_⟩
  · exact ((near .function).2.1 ⟨1⟩).mpr ⟨rfl, [⟨2⟩], [.root], rfl, by decide⟩
  · exact (far .function).2.2.mpr (by decide)

end FrontEnd.ScopeTree
