import FrontEnd.Proofs.Analysis.Resolving
import FrontEnd.Proofs.Program.Declarations
import Mathlib.Data.List.Nodup

/-!
# The declarations that a pass makes

The overlay of a traversal has one entry at most for a scope and a name (`Overlay.Distinct`), since
a declaration replaces the earlier one. After a pass that succeeds, its entries are the last
declarations of the program for their scopes and names, but for those names that the scope tree
declares in the same scope.

Main statement: `Program.analyze_declares`.
-/

namespace FrontEnd

/-! ## Entries of an overlay -/

namespace Overlay

/-- The scope and the name that an entry is about. -/
def key (entry : ScopeId × Declaration) : ScopeId × String :=
  (entry.1, entry.2.name)

/-- An entry declares a name in a scope if these are its key. -/
lemma declares_iff {s name} {entry : ScopeId × Declaration} :
    declares s name entry ↔ key entry = (s, name) := by
  simp [declares, key]

/-- No two entries are about the same scope and name. -/
def Distinct (o : Overlay) : Prop :=
  (o.entries.map key).Nodup

/-- At the start no two entries have one key. -/
lemma Distinct.empty : Overlay.empty.Distinct :=
  List.nodup_nil

/-- A declaration takes the place of the one that was there. -/
lemma Distinct.insert {o : Overlay} (dt : o.Distinct) (s : ScopeId) (d : Declaration) :
    (o.insert s d).Distinct := by
  refine List.nodup_cons.mpr ⟨?_, dt.sublist (List.filter_sublist.map key)⟩
  intro hm
  obtain ⟨entry, he, same⟩ := List.mem_map.mp hm
  have other := (List.mem_filter.mp he).2
  rw [declares_iff.mpr same] at other
  cases other

/-- The entries of an overlay are what is found in it. -/
lemma Distinct.mem_entries_iff {o : Overlay} (dt : o.Distinct) {s d} :
    (s, d) ∈ o.entries ↔ o.find? s d.name = some d := by
  obtain ⟨entries⟩ := o
  replace dt : (entries.map key).Nodup := dt
  dsimp only [find?]
  induction entries with
  | nil => simp
  | cons entry rest ih =>
    obtain ⟨fresh, dt⟩ := List.nodup_cons.mp dt
    by_cases hd : declares s d.name entry
    · -- The first entry is about this scope and name, so no other one is.
      have same : key entry = (s, d.name) := declares_iff.mp hd
      rw [List.find?_cons_of_pos hd]
      constructor
      · intro hm
        rcases List.mem_cons.mp hm with rfl | hm
        · rfl
        · exact absurd (List.mem_map.mpr ⟨(s, d), hm, same.symm⟩) fresh
      · intro found
        obtain ⟨r, e⟩ := entry
        cases found
        cases same
        exact List.mem_cons_self
    · have ne : (s, d) ≠ entry := by
        rintro rfl
        exact hd (declares_iff.mpr rfl)
      rw [List.find?_cons_of_neg hd, List.mem_cons, or_iff_right ne]
      exact ih dt

end Overlay

/-! ## Steps and runs -/

/-- A step leaves the overlay alone or declares a name in the scope it is in. -/
lemma Step.overlay_perform {env p q es} {step : Step} (h : step.perform env p = .ok (q, es)) :
    q.overlay = p.overlay ∨ ∃ d, step = .declare d ∧ q.overlay = p.overlay.insert p.scope d := by
  cases step with
  | enter s =>
    cases h
    exact .inl rfl
  | leave =>
    rw [Step.perform, Position.leave] at h
    split at h
    all_goals
      cases h
      exact .inl rfl
  | declare d =>
    obtain rfl : (p.declare env.tree d).1 = q := congrArg Prod.fst (Except.ok.inj h)
    unfold Position.declare
    split
    · exact .inl rfl
    · exact .inr ⟨d, rfl, rfl⟩
  | use u =>
    obtain ⟨rfl, -⟩ := Step.perform_use h
    exact .inl rfl
  | _ =>
    obtain ⟨rfl, -⟩ := Step.perform_quiet rfl h
    exact .inl rfl

/-- A run keeps the entries of the overlay distinct. -/
lemma Runs.distinct {env p q steps es} (rn : Runs env p steps es q) (dt : p.overlay.Distinct) :
    q.overlay.Distinct := by
  induction rn with
  | nil => exact dt
  | cons h _ ih =>
    apply ih
    obtain e | ⟨d, -, e⟩ := Step.overlay_perform h
    · rwa [e]
    · rw [e]
      exact dt.insert _ d

/-! ## Passes -/

/-- The latest of the mentioned declarations is the last of them. -/
lemma Mention.latest?_eq (ms : List Mention) (s : ScopeId) (name : String) :
    latest? ms s name =
      ((declarations ms).filter (Overlay.declares s name)).getLast?.map Prod.snd := by
  have same : ms.filterMap (declaration? s name) =
      ((declarations ms).filter (Overlay.declares s name)).map Prod.snd := by
    induction ms with
    | nil => rfl
    | cons m ms ih =>
      cases m with
      | used o => exact ih
      | declared r d =>
        rw [declarations_declared]
        by_cases h : r = s ∧ d.name = name
        · rw [List.filter_cons_of_pos (by simpa [Overlay.declares] using h), List.map_cons, ← ih]
          exact List.filterMap_cons_some (if_pos h)
        · rw [List.filter_cons_of_neg (by simpa [Overlay.declares] using h), ← ih]
          exact List.filterMap_cons_none (if_neg h)
  rw [latest?, same, List.getLast?_map]

/-- The declarations of a pass that succeeds are the last ones that the program makes of a name in a
scope, unless the scope tree declares the name there, and it has no others. -/
theorem Program.analyze_declares {p : Program} {lex policy a}
    (ok : (p.analyze lex policy).result = .ok a) :
    (∀ s name, a.declaration? s name =
      if (p.scopes.declared? s name).isSome then none
      else (p.declarations.filter (Overlay.declares s name)).getLast?.map Prod.snd) ∧
    (∀ s d, (s, d) ∈ a.overlay.entries ↔ a.declaration? s d.name = some d) ∧
    (a.overlay.entries.map Overlay.key).Nodup := by
  obtain ⟨q, rn, ha, -⟩ := p.runs_of_analyze ok
  have records := (p.tells.follows rfl (Overlay.Records.empty p.scopes) rn).overlay
  have distinct := rn.distinct Overlay.Distinct.empty
  rw [ha]
  refine ⟨?_, fun s d => distinct.mem_entries_iff, distinct⟩
  intro s name
  rw [← p.declarations_mentions, ← Mention.latest?_eq]
  exact records s name

/-- A variable that is declared twice, one that the scope tree declares, and a function with a
parameter of the same name as the first. -/
def redeclaring : Program :=
  ⟨.mk .root
      [.variables [⟨"x", false, false, none⟩, ⟨"g", true, false, none⟩, ⟨"x", true, false, none⟩]
          .origin,
        .function "f" [⟨"x", false, true, .origin⟩] (.mk ⟨1⟩ [] .origin) false .origin] .origin,
    ((ScopeTree.empty.openFunction .root []).2.bind .root ⟨"g", .var, false, false⟩).2⟩

/-- The second variable counts, the scope tree keeps its own, and the parameter is
in the function. -/
theorem redeclaring_analyze_declares :
    ∃ a, (redeclaring.analyze .empty .strict).result = .ok a ∧
      a.declaration? .root "x" = some ⟨"x", .var, false, true⟩ ∧
      a.declaration? .root "g" = none ∧
      a.declaration? ⟨1⟩ "x" = some ⟨"x", .param, true, false⟩ ∧
      (a.overlay.entries.map Overlay.key).Nodup := by
  refine ⟨_, rfl, ?_⟩
  obtain ⟨latest, -, distinct⟩ := Program.analyze_declares (p := redeclaring) rfl
  exact ⟨latest .root "x", latest .root "g", latest ⟨1⟩ "x", distinct⟩

end FrontEnd
