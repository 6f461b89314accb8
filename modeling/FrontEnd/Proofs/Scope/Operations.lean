import FrontEnd.Proofs.Scope.Built
import Mathlib.Data.List.Dedup

/-!
# Runs of operations on a scope tree

The trees that any number of operations make out of another one (`ScopeTree.after`), each operation
about a scope that exists by then (`Issued`). An operation that is refused leaves the tree as it
was. As to names, a tree is a map from a scope and a name to the declaration that the first
operation asked for (`first?`). Nothing that comes later changes it.

Main statements: `declared?_perform` for an operation, `declared?_after` for a run of them, and
`count_after`, how many names a scope has.
-/

namespace FrontEnd.ScopeTree

/-! ## The declarations of a scope -/

/-- The declarations of a scope, in the order they were made. -/
def declarations (t : ScopeTree) (s : ScopeId) : List Declaration :=
  (t.get? s).elim [] Scope.symbols

/-- The number of declarations of a scope. -/
def count (t : ScopeTree) (s : ScopeId) : Nat :=
  (t.declarations s).length

/-- The declaration of a name is found among those of its scope. -/
lemma declared?_eq_find? (t : ScopeTree) (s : ScopeId) (name : String) :
    t.declared? s name = (t.declarations s).find? fun d => d.name = name := by
  unfold declared? declarations
  cases t.get? s <;> rfl

/-- The empty tree has no declarations. -/
lemma declarations_empty (s : ScopeId) : empty.declarations s = [] := by
  unfold declarations
  cases es : empty.get? s with
  | none => rfl
  | some scope =>
    obtain rfl : scope = ⟨.global, [], [], []⟩ := by simpa [empty] using List.mem_of_getElem? es
    rfl

/-- The empty tree declares no name. -/
lemma declared?_empty (s : ScopeId) (name : String) : empty.declared? s name = none := by
  rw [declared?_eq_find?, declarations_empty]
  rfl

/-! ## Creating scopes -/

/-- No scope has the number that the next one gets. -/
lemma get?_size (t : ScopeTree) : t.get? ⟨t.size⟩ = none :=
  List.getElem?_eq_none (Nat.le_refl _)

/-- A new scope has no declarations, and the others are as they were. -/
lemma get?_openWith_eq (t : ScopeTree) (parent : ScopeId) (kind : ScopeKind)
    (returns : List ReturnSlot) (s : ScopeId) :
    (t.openWith parent kind returns).2.get? s =
      if s = ⟨t.size⟩ then some ⟨kind, t.chain parent, [], returns⟩ else t.get? s := by
  split
  · subst s
    exact t.get?_openWith_new parent kind returns
  · rename_i other
    rcases Nat.lt_or_ge s.index t.size with old | beyond
    · exact get?_openWith old
    · have ne : s.index ≠ t.size := fun e => other (congrArg ScopeId.mk e)
      have lt : t.size < s.index := Nat.lt_of_le_of_ne beyond ne.symm
      have before : t.get? s = none := List.getElem?_eq_none beyond
      rw [before]
      apply List.getElem?_eq_none
      rwa [openWith, List.length_append]

/-- A new scope has no declarations, and the others keep theirs. -/
lemma declarations_openWith (t : ScopeTree) (parent : ScopeId) (kind : ScopeKind)
    (returns : List ReturnSlot) (s : ScopeId) :
    (t.openWith parent kind returns).2.declarations s = t.declarations s := by
  unfold declarations
  rw [get?_openWith_eq]
  split
  · subst s
    rw [get?_size]
    rfl
  · rfl

/-! ## Binding -/

/-- A name that is declared is not bound again. -/
lemma bind_of_some {t : ScopeTree} {s d old} (h : t.declared? s d.name = some old) :
    t.bind s d = (false, t) := by
  rw [bind, define, h]

/-- A name that is not declared is defined. -/
lemma bind_of_none {t : ScopeTree} {s d} (h : t.declared? s d.name = none) :
    ∃ extended, t.define s d = .ok extended ∧ t.bind s d = (true, extended) := by
  rw [bind, define, h]
  exact ⟨_, rfl, rfl⟩

/-- A declaration adds no scope. -/
lemma size_bind (t : ScopeTree) (s : ScopeId) (d : Declaration) :
    (t.bind s d).2.size = t.size := by
  unfold bind define
  cases t.declared? s d.name with
  | some _ => rfl
  | none => exact List.length_modify _ _ _

/-- Binding a name leaves every way outward alone. -/
lemma chain_bind (t : ScopeTree) (s : ScopeId) (d : Declaration) (r : ScopeId) :
    (t.bind s d).2.chain r = t.chain r := by
  cases h : t.declared? s d.name with
  | some _ => rw [bind_of_some h]
  | none =>
    obtain ⟨extended, added, e⟩ := bind_of_none h
    rw [e, chain_define added]

/-- Binding a name declares it where it is not declared. -/
lemma declared?_bind {t : ScopeTree} {s : ScopeId} (inside : s.index < t.size) (d : Declaration)
    (r : ScopeId) (name : String) :
    (t.bind s d).2.declared? r name =
      (t.declared? r name).or (if r = s ∧ name = d.name then some d else none) := by
  cases h : t.declared? s d.name with
  | some old =>
    rw [bind_of_some h]
    by_cases here : r = s ∧ name = d.name
    · obtain ⟨rfl, rfl⟩ := here
      simp [h]
    · simp [here]
  | none =>
    obtain ⟨extended, added, e⟩ := bind_of_none h
    rw [e, declared?_define added inside]
    by_cases here : r = s ∧ name = d.name
    · obtain ⟨rfl, rfl⟩ := here
      simp [h]
    · simp [here]

/-- A name that is bound comes last among the declarations of its scope. -/
lemma declarations_bind {t : ScopeTree} {s : ScopeId} (inside : s.index < t.size)
    {d : Declaration} (fresh : t.declared? s d.name = none) (r : ScopeId) :
    (t.bind s d).2.declarations r =
      if r = s then t.declarations r ++ [d] else t.declarations r := by
  obtain ⟨extended, added, e⟩ := bind_of_none fresh
  rw [e]
  unfold declarations
  rw [get?_define added]
  split
  · subst r
    have es : t.get? s = some t.scopes[s.index] := List.getElem?_eq_getElem inside
    rw [es]
    rfl
  · rfl

/-! ## Operations -/

/-- A change to a scope tree. -/
inductive Operation where
  | openScope (parent : ScopeId) (kind : ScopeKind)
  | openFunction (parent : ScopeId) (returns : List ReturnSlot)
  | define (s : ScopeId) (d : Declaration)
  | bind (s : ScopeId) (d : Declaration)

namespace Operation

/-- The scope that an operation is about. -/
def scope : Operation → ScopeId
  | openScope s _ | openFunction s _ | define s _ | bind s _ => s

/-- What an operation asks to declare, with the scope. -/
def request? : Operation → Option (ScopeId × Declaration)
  | openScope _ _ | openFunction _ _ => none
  | define s d | bind s d => some (s, d)

end Operation

/-- What operations ask to declare, in order, granted or not. -/
def requests (ops : List Operation) : List (ScopeId × Declaration) :=
  ops.filterMap Operation.request?

/-- The first declaration of a name in a scope that operations ask for. -/
def first? (ops : List Operation) (s : ScopeId) (name : String) : Option Declaration :=
  ((requests ops).find? fun r => r.1 = s ∧ r.2.name = name).map Prod.snd

/-- The names that operations ask to declare in a scope, each as often as they do. -/
def namesIn (ops : List Operation) (s : ScopeId) : List String :=
  ((requests ops).filter fun r => r.1 = s).map fun r => r.2.name

/-- The tree after an operation. -/
def perform (t : ScopeTree) : Operation → ScopeTree
  | .openScope parent kind => (t.openScope parent kind).2
  | .openFunction parent returns => (t.openFunction parent returns).2
  | .define s d =>
    match t.define s d with
    | .ok extended => extended
    | .error _ => t
  | .bind s d => (t.bind s d).2

/-- The tree after some operations, one after the other. -/
def after (t : ScopeTree) (ops : List Operation) : ScopeTree :=
  ops.foldl perform t

/-- Every operation is about a scope that the tree has when its turn comes. -/
def Issued (t : ScopeTree) : List Operation → Prop
  | [] => True
  | op :: rest => op.scope.index < t.size ∧ Issued (t.perform op) rest

/-- The tree is the same whether a name is defined or bound. -/
lemma perform_define (t : ScopeTree) (s : ScopeId) (d : Declaration) :
    t.perform (.define s d) = (t.bind s d).2 := by
  rw [perform, bind]
  cases t.define s d <;> rfl

/-- A name is refused exactly if its scope declares it. -/
lemma define_eq_error_iff {t : ScopeTree} {s d} :
    (∃ e, t.define s d = .error e) ↔ (t.declared? s d.name).isSome := by
  rw [define]
  cases t.declared? s d.name <;> simp

/-- A declaration is new if its name is not declared in its scope. -/
lemma bind_eq_true_iff {t : ScopeTree} {s d} :
    (t.bind s d).1 = true ↔ t.declared? s d.name = none := by
  cases h : t.declared? s d.name with
  | some old => simp [bind_of_some h]
  | none =>
    obtain ⟨extended, -, e⟩ := bind_of_none h
    simp [e]

/-- A refused operation leaves the tree as it was. -/
lemma perform_refused {t : ScopeTree} {op : Operation} {s d} (asks : op.request? = some (s, d))
    (declared : (t.declared? s d.name).isSome) : t.perform op = t := by
  obtain ⟨old, h⟩ := Option.isSome_iff_exists.mp declared
  cases op with
  | openScope parent kind => cases asks
  | openFunction parent returns => cases asks
  | define r e =>
    cases asks
    rw [perform_define, bind_of_some h]
  | bind r e =>
    cases asks
    rw [perform, bind_of_some h]

/-- A run of operations can be cut in two. -/
lemma after_append (t : ScopeTree) (ops more : List Operation) :
    t.after (ops ++ more) = (t.after ops).after more :=
  List.foldl_append

/-- An operation on a built tree makes a built tree. -/
lemma Built.perform {t : ScopeTree} {op : Operation} (b : Built t)
    (inside : op.scope.index < t.size) : Built (t.perform op) := by
  cases op with
  | openScope parent kind => exact b.scope inside
  | openFunction parent returns => exact b.function inside
  | define s d =>
    rw [perform_define]
    exact b.bind inside
  | bind s d => exact b.bind inside

/-- Operations that are issued keep a tree built. -/
lemma Built.after {t : ScopeTree} {ops : List Operation} (b : Built t) (issued : t.Issued ops) :
    Built (t.after ops) := by
  induction ops generalizing t with
  | nil => exact b
  | cons op ops ih => exact ih (b.perform issued.1) issued.2

/-! ## Declarations -/

/-- The first declaration of a name in a run is that of the first part which has one. -/
lemma first?_append (ops more : List Operation) (s : ScopeId) (name : String) :
    first? (ops ++ more) s name = (first? ops s name).or (first? more s name) := by
  unfold first? requests
  rw [List.filterMap_append, List.find?_append, Option.map_or]

/-- The first of some requests is the only one. -/
lemma first?_request {op : Operation} {r : ScopeId} {d : Declaration}
    (h : op.request? = some (r, d)) (s : ScopeId) (name : String) :
    first? [op] s name = if s = r ∧ name = d.name then some d else none := by
  have single : requests [op] = [(r, d)] := List.filterMap_cons_some h
  unfold first?
  rw [single]
  by_cases here : s = r ∧ name = d.name
  · obtain ⟨rfl, rfl⟩ := here
    simp
  · have other : ¬ (r = s ∧ d.name = name) := fun e => here ⟨e.1.symm, e.2.symm⟩
    simp [here, other]

/-- An operation adds what it asks for, where nothing is declared. -/
lemma declared?_perform {t : ScopeTree} {op : Operation} (inside : op.scope.index < t.size)
    (s : ScopeId) (name : String) :
    (t.perform op).declared? s name = (t.declared? s name).or (first? [op] s name) := by
  cases op with
  | openScope parent kind =>
    rw [perform, openScope, declared?_eq_find?, declarations_openWith, ← declared?_eq_find?]
    exact Option.or_none.symm
  | openFunction parent returns =>
    rw [perform, openFunction, declared?_eq_find?, declarations_openWith, ← declared?_eq_find?]
    exact Option.or_none.symm
  | define r d =>
    rw [perform_define, first?_request rfl]
    exact declared?_bind inside d s name
  | bind r d =>
    rw [first?_request rfl]
    exact declared?_bind inside d s name

/-- After a run a scope declares a name as it did, or else as the first operation asked. -/
lemma declared?_after {t : ScopeTree} {ops : List Operation} (issued : t.Issued ops)
    (s : ScopeId) (name : String) :
    (t.after ops).declared? s name = (t.declared? s name).or (first? ops s name) := by
  induction ops generalizing t with
  | nil => exact Option.or_none.symm
  | cons op ops ih =>
    have cut := first?_append [op] ops s name
    rw [List.singleton_append] at cut
    rw [cut, ← Option.or_assoc, ← declared?_perform issued.1]
    exact ih issued.2

/-! ## How many names a scope has -/

/-- No scope has a name twice. -/
def Distinct (t : ScopeTree) : Prop :=
  ∀ s, ((t.declarations s).map Declaration.name).Nodup

/-- A scope has the names that it declares. -/
lemma mem_names_iff {t : ScopeTree} {s name} :
    name ∈ (t.declarations s).map Declaration.name ↔ (t.declared? s name).isSome := by
  simp [declared?_eq_find?]

/-- A run has the names that it declares first somewhere. -/
lemma mem_namesIn_iff {ops : List Operation} {s name} :
    name ∈ namesIn ops s ↔ (first? ops s name).isSome := by
  simp [namesIn, first?, List.find?_isSome]

namespace Distinct

/-- The empty tree has no names. -/
lemma empty : Distinct .empty := by
  intro s
  rw [declarations_empty]
  exact List.nodup_nil

/-- A new scope has no names. -/
lemma openWith {t : ScopeTree} (dt : t.Distinct) (parent : ScopeId) (kind : ScopeKind)
    (returns : List ReturnSlot) : (t.openWith parent kind returns).2.Distinct := by
  intro s
  rw [declarations_openWith]
  exact dt s

/-- A name is bound only if its scope does not have it. -/
lemma bind {t : ScopeTree} (dt : t.Distinct) {s : ScopeId} (inside : s.index < t.size)
    (d : Declaration) : (t.bind s d).2.Distinct := by
  cases h : t.declared? s d.name with
  | some old =>
    rw [bind_of_some h]
    exact dt
  | none =>
    intro r
    rw [declarations_bind inside h]
    split
    · subst r
      have new : d.name ∉ (t.declarations s).map Declaration.name := by
        rw [mem_names_iff, h]
        exact Bool.false_ne_true
      rw [List.map_append]
      exact List.nodup_append_comm.mp (List.nodup_cons.mpr ⟨new, dt s⟩)
    · exact dt r

/-- An operation enters no name a second time. -/
lemma perform {t : ScopeTree} (dt : t.Distinct) {op : Operation}
    (inside : op.scope.index < t.size) : (t.perform op).Distinct := by
  cases op with
  | openScope parent kind => exact dt.openWith parent kind []
  | openFunction parent returns => exact dt.openWith parent .function returns
  | define s d =>
    rw [perform_define]
    exact dt.bind inside d
  | bind s d => exact dt.bind inside d

/-- Nor does a run of operations. -/
lemma after {t : ScopeTree} (dt : t.Distinct) {ops : List Operation} (issued : t.Issued ops) :
    (t.after ops).Distinct := by
  induction ops generalizing t with
  | nil => exact dt
  | cons op ops ih => exact ih (dt.perform issued.1) issued.2

end Distinct

/-- After a run a scope has each name once that was asked for in it. -/
lemma count_after {ops : List Operation} (issued : empty.Issued ops) (s : ScopeId) :
    (empty.after ops).count s = (namesIn ops s).dedup.length := by
  rw [count, ← List.length_map Declaration.name]
  apply List.Perm.length_eq
  apply (List.perm_ext_iff_of_nodup (Distinct.empty.after issued s) (List.nodup_dedup _)).mpr
  intro name
  rw [mem_names_iff, declared?_after issued, declared?_empty, Option.none_or, List.mem_dedup,
    mem_namesIn_iff]

end FrontEnd.ScopeTree
