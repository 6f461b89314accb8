import FrontEnd.Proofs.Scope.Ascent
import FrontEnd.Proofs.Scope.Interning

/-!
# Who sees a definition

A definition changes what a look-up finds for its own name alone, and only from the scopes whose
walk to the root comes to its scope before another declaration of the name (`lookup?_define`). A new
scope changes nothing for the others, and sees what its parent sees.

Main statement: `define_reaches`.
-/

namespace FrontEnd.ScopeTree

/-! ## Definitions -/

/-- A way outward comes to a scope, and no scope before it declares a name. -/
def Reaches (t : ScopeTree) (way : List ScopeId) (s : ScopeId) (name : String) : Prop :=
  s ∈ way ∧ ∀ q ∈ way.takeWhile (· ≠ s), t.declared? q name = none

instance (t : ScopeTree) (way : List ScopeId) (s : ScopeId) (name : String) :
    Decidable (t.Reaches way s name) :=
  inferInstanceAs (Decidable (_ ∧ _))

/-- A way that begins with a scope reaches it. -/
lemma reaches_self (t : ScopeTree) (s : ScopeId) (way : List ScopeId) (name : String) :
    t.Reaches (s :: way) s name := by
  simp [Reaches]

/-- A way that begins with another scope reaches it if that scope does not declare the name and the
rest of the way reaches it. -/
lemma reaches_cons {t : ScopeTree} {q s : ScopeId} (other : q ≠ s) {way : List ScopeId}
    {name : String} :
    t.Reaches (q :: way) s name ↔ t.declared? q name = none ∧ t.Reaches way s name := by
  have before : (q :: way).takeWhile (· ≠ s) = q :: way.takeWhile (· ≠ s) :=
    List.takeWhile_cons_of_pos (decide_eq_true other)
  rw [Reaches, Reaches, before, List.forall_mem_cons, List.mem_cons, or_iff_right other.symm]
  exact and_left_comm

section

variable {t extended : ScopeTree} {s : ScopeId} {d : Declaration}

/-- A way outward that reaches the scope of a definition finds it. -/
lemma findSome?_of_reaches (added : t.define s d = .ok extended) (inside : s.index < t.size)
    {way : List ScopeId} (reach : t.Reaches way s d.name) :
    way.findSome? (extended.declared? · d.name) = some d := by
  induction way with
  | nil => cases reach.1
  | cons q way ih =>
    rw [List.findSome?_cons, declared?_define added inside]
    by_cases here : q = s
    · rw [if_pos ⟨here, rfl⟩]
    · obtain ⟨undeclared, later⟩ := (reaches_cons here).mp reach
      rw [if_neg fun e => here e.1, undeclared]
      exact ih later

/-- Any other way outward finds what it did. -/
lemma findSome?_of_not_reaches (added : t.define s d = .ok extended) (inside : s.index < t.size)
    {way : List ScopeId} {name : String} (apart : ¬ (name = d.name ∧ t.Reaches way s name)) :
    way.findSome? (extended.declared? · name) = way.findSome? (t.declared? · name) := by
  induction way with
  | nil => rfl
  | cons q way ih =>
    have elsewhere : ¬ (q = s ∧ name = d.name) := by
      rintro ⟨rfl, named⟩
      exact apart ⟨named, t.reaches_self q way name⟩
    rw [List.findSome?_cons, List.findSome?_cons, declared?_define added inside,
      if_neg elsewhere]
    cases undeclared : t.declared? q name with
    | some _ => rfl
    | none =>
      apply ih
      rintro ⟨named, later⟩
      have other : q ≠ s := fun here => elsewhere ⟨here, named⟩
      exact apart ⟨named, (reaches_cons other).mpr ⟨undeclared, later⟩⟩

/-- After a definition a look-up finds it wherever the way outward reaches it, and else what it
found before. -/
lemma lookup?_define (added : t.define s d = .ok extended) (inside : s.index < t.size)
    (r : ScopeId) (name : String) :
    extended.lookup? r name =
      if name = d.name ∧ t.Reaches (t.chain r) s name then some d else t.lookup? r name := by
  rw [lookup?, chain_define added]
  split_ifs with reach
  · obtain ⟨rfl, reach⟩ := reach
    exact findSome?_of_reaches added inside reach
  · exact findSome?_of_not_reaches added inside reach

end

/-! ## New scopes -/

/-- All scopes on the way outward are older. -/
lemma Built.le_of_mem_chain {t : ScopeTree} (b : Built t) {s q : ScopeId} (on : q ∈ t.chain s) :
    q.index ≤ s.index := by
  induction s using b.wellFounded.induction with
  | _ s ih =>
    rw [b.chain_eq s] at on
    rcases List.mem_cons.mp on with rfl | later
    · exact Nat.le_refl _
    · cases up : t.parent? s with
      | none =>
        rw [up] at later
        cases later
      | some r =>
        rw [up] at later
        exact Nat.le_trans (ih r up later) (Nat.le_of_lt (b.parent_lt up))

section

variable (t : ScopeTree) (parent : ScopeId) (kind : ScopeKind) (returns : List ReturnSlot)

/-- A new scope declares nothing, and the others declare what they did. -/
lemma declared?_openWith_eq (s : ScopeId) (name : String) :
    (t.openWith parent kind returns).2.declared? s name = t.declared? s name := by
  rw [declared?_eq_find?, declarations_openWith, ← declared?_eq_find?]

/-- A new scope changes no look-up from the others. -/
lemma lookup?_openWith {s : ScopeId} (inside : s.index < t.size) (name : String) :
    (t.openWith parent kind returns).2.lookup? s name = t.lookup? s name := by
  rw [lookup?, chain_openWith inside]
  simp only [declared?_openWith_eq]
  rfl

/-- A new scope sees what its parent sees. -/
lemma lookup?_openWith_new (name : String) :
    (t.openWith parent kind returns).2.lookup? ⟨t.size⟩ name = t.lookup? parent name := by
  have way : (t.openWith parent kind returns).2.chain ⟨t.size⟩ = ⟨t.size⟩ :: t.chain parent := by
    rw [chain, enclosing, get?_openWith_new]
    rfl
  have undeclared : t.declared? ⟨t.size⟩ name = none := by
    rw [declared?, get?_size]
    rfl
  rw [lookup?, way]
  simp only [declared?_openWith_eq, List.findSome?_cons, undeclared]
  rfl

/-- A new scope changes no search from the others. -/
lemma nearest?_openWith (b : Built t) {s : ScopeId} (inside : s.index < t.size)
    (wanted : ScopeKind) :
    (t.openWith parent kind returns).2.nearest? s wanted = t.nearest? s wanted := by
  rw [nearest?, chain_openWith inside]
  apply List.find?_congr
  intro q on
  rw [kind?, get?_openWith (Nat.lt_of_le_of_lt (b.le_of_mem_chain on) inside)]
  rfl

end

/-- An operation that gives out a number creates the scope with it. -/
lemma perform_of_number? {t : ScopeTree} {op : Operation} {new : ScopeId}
    (opens : t.number? op = some new) :
    new = ⟨t.size⟩ ∧ ∃ kind returns, t.perform op = (t.openWith op.scope kind returns).2 := by
  cases op with
  | openScope parent kind =>
    cases opens
    exact ⟨rfl, kind, [], rfl⟩
  | openFunction parent returns =>
    cases opens
    exact ⟨rfl, .function, returns, rfl⟩
  | define s d => cases opens
  | bind s d => cases opens

/-! ## Runs -/

/-- In a tree that operations made, a definition is found from the scopes whose walk to the root
reaches its scope before another declaration of its name; all other answers are as before. A new
scope sees what its parent sees, and leaves the answers of the other scopes as they were. The same
holds if names are interned. -/
theorem define_reaches {Pool Symbol : Type} [DecidableEq Symbol] {I : Interner Pool Symbol}
    (lawful : I.Lawful) {ops : List Operation} (issued : empty.Issued ops) :
    let t := empty.after ops
    let a := (InternedTree.empty I).after ops
    a.Agrees t ∧
    (∀ s d extended, s.index < t.size → t.define s d = .ok extended →
      (a.define s d).1 = none ∧ (a.define s d).2.Agrees extended ∧
      ∀ r, r.index < t.size → t.Ascends r (t.chain r) ∧ ∀ name,
        extended.lookup? r name =
          if name = d.name ∧ t.Reaches (t.chain r) s name then some d else t.lookup? r name) ∧
    ∀ op new, op.scope.index < t.size → t.number? op = some new →
      (a.perform op).Agrees (t.perform op) ∧
      (∀ name, (t.perform op).lookup? new name = (t.perform op).lookup? op.scope name) ∧
      ∀ s, s.index < t.size →
        (∀ name, (t.perform op).lookup? s name = t.lookup? s name) ∧
        ∀ kind, (t.perform op).nearest? s kind = t.nearest? s kind := by
  intro t a
  have b : Built t := Built.empty.after issued
  obtain ⟨texts, rp⟩ := InternedTree.Represents.empty.after lawful issued
  refine ⟨rp.agrees lawful, ?_, ?_⟩
  · intro s d extended inside added
    have here : (Operation.define s d).scope.index < t.size := inside
    obtain ⟨_, later⟩ := rp.perform lawful here
    rw [perform, added] at later
    refine ⟨?_, later.agrees lawful, ?_⟩
    · apply Option.eq_none_iff_forall_ne_some.mpr
      intro e refused
      cases added.symm.trans ((rp.define_eq_some_iff lawful).mp refused)
    · intro r rooted
      exact ⟨b.ascends rooted, lookup?_define added inside r⟩
  · intro op new inside opens
    obtain ⟨_, later⟩ := rp.perform lawful inside
    obtain ⟨rfl, kind, returns, made⟩ := perform_of_number? opens
    refine ⟨later.agrees lawful, ?_, ?_⟩
    · intro name
      rw [made, lookup?_openWith_new, lookup?_openWith t op.scope kind returns inside]
    · intro s existing
      rw [made]
      exact ⟨t.lookup?_openWith op.scope kind returns existing,
        t.nearest?_openWith op.scope kind returns b existing⟩

/-- A function with a parameter, a block in it and a block beside it. -/
def overlooking : List Operation :=
  [.openFunction .root [], .openScope ⟨1⟩ .block, .openScope .root .block,
    .define ⟨1⟩ ⟨"x", .param, false, true⟩]

/-- A variable of the same name in the root is seen from the block beside the function. The block in
the function keeps the parameter, and so does a new block in that one. -/
theorem overlooking_define_reaches :
    empty.Issued overlooking ∧ Interner.numbering.Lawful ∧
    ∃ extended, (empty.after overlooking).define .root ⟨"x", .var, false, false⟩ = .ok extended ∧
      extended.lookup? ⟨3⟩ "x" = some ⟨"x", .var, false, false⟩ ∧
      extended.lookup? ⟨2⟩ "x" = some ⟨"x", .param, false, true⟩ ∧
      (((InternedTree.empty .numbering).after overlooking).define .root
        ⟨"x", .var, false, false⟩).2.Agrees extended ∧
      ((empty.after overlooking).perform (.openScope ⟨2⟩ .block)).lookup? ⟨4⟩ "x" =
        some ⟨"x", .param, false, true⟩ := by
  have issued : empty.Issued overlooking := by
    refine ⟨?_, ?_, ?_, ?_, trivial⟩ <;> decide
  obtain ⟨-, defined, opened⟩ := define_reaches Interner.Lawful.numbering issued
  have added : (empty.after overlooking).define .root ⟨"x", .var, false, false⟩ = .ok _ := rfl
  obtain ⟨-, agrees, seen⟩ := defined _ _ _ (by decide) added
  refine ⟨issued, .numbering, _, added, ?_, ?_, agrees, ?_⟩
  · rw [(seen ⟨3⟩ (by decide)).2 "x", if_pos (by decide)]
  · rw [(seen ⟨2⟩ (by decide)).2 "x", if_neg (by decide)]
    rfl
  · exact (opened (.openScope ⟨2⟩ .block) ⟨4⟩ (by decide) rfl).2.1 "x"

end FrontEnd.ScopeTree
