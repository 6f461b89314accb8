import FrontEnd.Analysis.Event
import FrontEnd.Proofs.Program.Content
import FrontEnd.Proofs.Scope.Built

/-!
# Lexical scoping

What a name means at a place of a program, said without a traversal. The scope tree and the
declarations mentioned before the place each bind names in scopes. Of the declarations the latest
counts, and what the tree declares counts before them. A name is looked for from a scope outward,
from parent to parent, and the first scope that binds it decides (`Sees`).

Main statements: `ScopeTree.Built.sees_iff`, in a built tree a name sees exactly one thing, which
`ScopeTree.seen?` computes, and `Mention.getElem?_resolutions`, where in the list of all
resolutions the one about an occurrence stands.
-/

namespace FrontEnd

namespace Mention

/-- The declaration of a name in a scope that a mention is. -/
def declaration? (s : ScopeId) (name : String) : Mention → Option Declaration
  | declared r d => if r = s ∧ d.name = name then some d else none
  | used _ => none

/-- The latest of the mentioned declarations of a name in a scope. -/
def latest? (before : List Mention) (s : ScopeId) (name : String) : Option Declaration :=
  (before.filterMap (declaration? s name)).getLast?

end Mention

namespace ScopeTree

/-- What a scope binds a name to: the declaration of the tree, or else the latest one mentioned. -/
def binding? (tree : ScopeTree) (before : List Mention) (name : String) (s : ScopeId) :
    Option Declaration :=
  (tree.declared? s name).or (Mention.latest? before s name)

/-- What the first scope on the way outward that binds a name binds it to. -/
def seen? (tree : ScopeTree) (before : List Mention) (name : String) (s : ScopeId) :
    Option Declaration :=
  (tree.chain s).findSome? (tree.binding? before name)

end ScopeTree

/-- A name, looked for from a scope outward after some mentions, and the declaration it finds, or
none. -/
inductive Sees (tree : ScopeTree) (before : List Mention) (name : String) :
    ScopeId → Option Declaration → Prop where
  | here {s d} :
    tree.binding? before name s = some d →
    Sees tree before name s (some d)
  | outward {s parent found} :
    tree.binding? before name s = none →
    tree.parent? s = some parent →
    Sees tree before name parent found →
    Sees tree before name s found
  | nowhere {s} :
    tree.binding? before name s = none →
    tree.parent? s = none →
    Sees tree before name s none

/-- A name finds one thing at most. -/
lemma Sees.unique {tree before name s found other} (sn : Sees tree before name s found)
    (so : Sees tree before name s other) : found = other := by
  induction sn with
  | here hb =>
    cases so with
    | here hb' => exact hb.symm.trans hb'
    | outward hb' _ _ => cases hb.symm.trans hb'
    | nowhere hb' _ => cases hb.symm.trans hb'
  | outward hb hp _ ih =>
    cases so with
    | here hb' => cases hb.symm.trans hb'
    | outward _ hp' so =>
      cases hp.symm.trans hp'
      exact ih so
    | nowhere _ hp' => cases hp.symm.trans hp'
  | nowhere hb hp =>
    cases so with
    | here hb' => cases hb.symm.trans hb'
    | outward _ hp' _ => cases hp.symm.trans hp'
    | nowhere _ _ => rfl

namespace ScopeTree

/-- In a built tree, a lookup goes on from the parent of a scope that does not bind the name. -/
lemma Built.seen?_eq {tree : ScopeTree} (b : Built tree) (before : List Mention) (name : String)
    (s : ScopeId) :
    tree.seen? before name s =
      (tree.binding? before name s).or ((tree.parent? s).bind (tree.seen? before name)) := by
  rw [seen?, b.chain_eq s, List.findSome?_cons]
  cases tree.binding? before name s with
  | some d => rfl
  | none => cases tree.parent? s <;> rfl

/-- In a built tree, every name sees what the lookup finds. -/
lemma Built.sees {tree : ScopeTree} (b : Built tree) (before : List Mention) (name : String)
    (s : ScopeId) : Sees tree before name s (tree.seen? before name s) := by
  -- Parents are older, so the walk outward goes by the number of the scope.
  generalize hn : s.index = n
  induction n using Nat.strongRecOn generalizing s with
  | ind n ih =>
    rw [b.seen?_eq before name s]
    cases hb : tree.binding? before name s with
    | some d => exact .here hb
    | none =>
      cases hp : tree.parent? s with
      | none => exact .nowhere hb hp
      | some parent =>
        have older : parent.index < n := hn ▸ b.parent_lt hp
        exact .outward hb hp (ih parent.index older parent rfl)

/-- In a built tree, a name sees exactly what the lookup finds. -/
lemma Built.sees_iff {tree : ScopeTree} (b : Built tree) {before name s found} :
    Sees tree before name s found ↔ found = tree.seen? before name s := by
  constructor
  · intro sn
    exact sn.unique (b.sees before name s)
  · rintro rfl
    exact b.sees before name s

end ScopeTree

/-! ## Resolutions of occurrences -/

namespace Occurrence

/-- The access of an occurrence after some mentions. -/
def access (tree : ScopeTree) (before : List Mention) (o : Occurrence) : Access :=
  .classify o.use.asPointer (tree.seen? before o.use.name o.scope)

/-- The decision about an occurrence with this access. -/
def resolution (o : Occurrence) (access : Access) : Resolution :=
  ⟨o.use.name, access, o.use.isMember, o.use.span⟩

end Occurrence

namespace Mention

/-- The decision about what is mentioned after some other mentions, if it is visited. -/
def resolution? (tree : ScopeTree) (before : List Mention) : Mention → Option Resolution
  | declared _ _ => none
  | used o => if o.isVisited then some (o.resolution (o.access tree before)) else none

/-- The decisions about all that is mentioned, each after all that comes before it. -/
def resolutions (tree : ScopeTree) (before : List Mention) : List Mention → List Resolution
  | [] => []
  | m :: rest => (m.resolution? tree before).toList ++ resolutions tree (before ++ [m]) rest

/-- A visited use is decided first, by what was mentioned before it. -/
lemma resolutions_cons_visited {o : Occurrence} (vs : o.isVisited) (tree : ScopeTree)
    (before ms : List Mention) :
    resolutions tree before (used o :: ms) =
      o.resolution (o.access tree before) :: resolutions tree (before ++ [used o]) ms := by
  simp [resolutions, resolution?, vs]

/-- Any other mention is only remembered. -/
lemma resolutions_cons_keep {m : Mention} (hv : ¬ m.isVisited) (tree : ScopeTree)
    (before ms : List Mention) :
    resolutions tree before (m :: ms) = resolutions tree (before ++ [m]) ms := by
  cases m with
  | declared s d => rfl
  | used o =>
    have vs : ¬ o.isVisited := hv
    simp [resolutions, resolution?, vs]

/-- The decisions of two parts, the second of which sees the first. -/
lemma resolutions_append (tree : ScopeTree) (before ms ns : List Mention) :
    resolutions tree before (ms ++ ns) =
      resolutions tree before ms ++ resolutions tree (before ++ ms) ns := by
  induction ms generalizing before with
  | nil => simp [resolutions]
  | cons m ms ih => simp [resolutions, ih]

/-- Decisions can be cut only where the mentions can. -/
lemma cut_resolutions {tree before ms done pending}
    (h : resolutions tree before ms = done ++ pending) :
    ∃ first second, ms = first ++ second ∧ resolutions tree before first = done := by
  induction ms generalizing before done with
  | nil =>
    obtain ⟨rfl, -⟩ := List.append_eq_nil_iff.mp h.symm
    exact ⟨[], [], rfl, rfl⟩
  | cons m ms ih =>
    by_cases hv : m.isVisited
    · cases m with
      | declared s d => cases hv
      | used o =>
        cases done with
        | nil => exact ⟨[], used o :: ms, rfl, rfl⟩
        | cons r done =>
          rw [resolutions_cons_visited hv, List.cons_append] at h
          obtain ⟨rfl, hr⟩ := List.cons_eq_cons.mp h
          obtain ⟨first, second, rfl, rfl⟩ := ih hr
          exact ⟨used o :: first, second, rfl, resolutions_cons_visited hv _ _ _⟩
    · rw [resolutions_cons_keep hv] at h
      obtain ⟨first, second, rfl, rfl⟩ := ih h
      exact ⟨m :: first, second, rfl, resolutions_cons_keep hv _ _ _⟩

/-- There is a decision about each visited occurrence. -/
lemma length_resolutions (tree : ScopeTree) (before ms : List Mention) :
    (resolutions tree before ms).length = ms.countP isVisited := by
  induction ms generalizing before with
  | nil => rfl
  | cons m ms ih =>
    by_cases hv : m.isVisited
    · cases m with
      | declared s d => cases hv
      | used o => rw [resolutions_cons_visited hv, List.length_cons, ih, List.countP_cons_of_pos hv]
    · rw [resolutions_cons_keep hv, ih, List.countP_cons_of_neg hv]

/-- The decision about an occurrence stands behind those about the visited ones before it. -/
lemma getElem?_resolutions (tree : ScopeTree) {before after : List Mention} {o : Occurrence}
    (hv : o.isVisited) :
    (resolutions tree [] (before ++ .used o :: after))[before.countP isVisited]? =
      some (o.resolution (o.access tree before)) := by
  have hl := length_resolutions tree [] before
  rw [resolutions_append, List.getElem?_append_right (Nat.le_of_eq hl), hl, Nat.sub_self,
    resolutions_cons_visited hv]
  rfl

end Mention

end FrontEnd
