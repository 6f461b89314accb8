import FrontEnd.Proofs.Analysis.Annotation
import FrontEnd.Proofs.Analysis.Rules

/-!
# The two policies

A permissive pass completes whatever the program. A strict one performs the same steps with the same
events for as long as no rule is broken (`Runs.strict_iff`), so that it either agrees with the
permissive pass or is a beginning of it (`Program.strict_halts`).

Main statement: `Program.strict_refines`.
-/

namespace FrontEnd

/-- Events that leave no use without a declaration. -/
def Event.Settled (es : List Event) : Prop :=
  ∀ r ∈ Event.resolutions es, r.access ≠ .unresolved

/-- Two parts leave no use open if neither does. -/
lemma Event.settled_append {es fs : List Event} :
    Event.Settled (es ++ fs) ↔ Event.Settled es ∧ Event.Settled fs := by
  unfold Event.Settled
  rw [Event.resolutions_append]
  exact List.forall_mem_append

/-- Events without decisions leave no use open. -/
lemma Event.settled_of_nil {es : List Event} (h : Event.resolutions es = []) :
    Event.Settled es := by
  unfold Event.Settled
  rw [h]
  nofun

/-! ## Steps -/

namespace Step

/-- Under the permissive policy every step can be performed. -/
lemma perform_permissive (lex : Lexicon) (tree : ScopeTree) (p : Position) (step : Step) :
    ∃ q es, step.perform ⟨lex, .permissive, tree⟩ p = .ok (q, es) := by
  cases step with
  | use u =>
    rw [perform, Policy.resolve, if_neg (by simp)]
    exact ⟨_, _, rfl⟩
  | operate kind span =>
    rw [perform]
    split <;> exact ⟨_, _, rfl⟩
  | _ => exact ⟨_, _, rfl⟩

/-- Only uses are decided about. -/
lemma resolutions_perform {env p q es} {step : Step} (h : step.perform env p = .ok (q, es))
    (hu : ∀ u, step ≠ .use u) : Event.resolutions es = [] := by
  cases step with
  | use u => exact absurd rfl (hu u)
  | enter s =>
    cases h
    rfl
  | leave =>
    rw [perform, Position.leave] at h
    split at h <;> cases h <;> rfl
  | declare d =>
    obtain rfl : (p.declare env.tree d).2 = es := congrArg Prod.snd (Except.ok.inj h)
    exact p.resolutions_declare env.tree d
  | _ => exact (perform_quiet rfl h).2

/-- A use can be performed under the strict policy if its name is declared. -/
lemma perform_use_strict_iff {lex tree p q es} {u : Use} :
    (use u).perform ⟨lex, .strict, tree⟩ p = .ok (q, es) ↔
      (use u).perform ⟨lex, .permissive, tree⟩ p = .ok (q, es) ∧ Event.Settled es := by
  by_cases hu : Access.classify u.asPointer (p.lookup? tree u.name) = .unresolved
  · have hs : (use u).perform ⟨lex, .strict, tree⟩ p =
        .error ⟨.undefinedIdentifier u.name, u.span⟩ := by
      rw [perform, Policy.resolve, if_pos ⟨hu, rfl⟩]
    refine iff_of_false (by simp [hs]) ?_
    rintro ⟨hp, settled⟩
    obtain ⟨-, rfl⟩ := perform_use hp
    exact settled _ (List.mem_singleton.mpr rfl) hu
  · have hs : (use u).perform ⟨lex, .strict, tree⟩ p =
        (use u).perform ⟨lex, .permissive, tree⟩ p := by
      rw [perform, perform, Policy.resolve, Policy.resolve, if_neg fun h => hu h.1,
        if_neg fun h => hu h.1]
    rw [hs]
    refine (and_iff_left_of_imp fun hp => ?_).symm
    obtain ⟨-, rfl⟩ := perform_use hp
    intro r hr
    rw [List.mem_singleton.mp hr]
    exact hu

/-- Under the strict policy a step does what it does under the permissive one, and
breaks no rule. -/
lemma perform_strict_iff {lex tree p q es} {step : Step} :
    step.perform ⟨lex, .strict, tree⟩ p = .ok (q, es) ↔
      step.perform ⟨lex, .permissive, tree⟩ p = .ok (q, es) ∧ (∀ v, step ≠ .violate v) ∧
        Event.Settled es := by
  cases step with
  | use u =>
    rw [perform_use_strict_iff]
    simp
  | violate v =>
    refine iff_of_false (by simp [perform]) ?_
    rintro ⟨-, hv, -⟩
    exact hv v rfl
  | _ =>
    -- The policy does not matter to any other step.
    refine (and_iff_left_of_imp fun h => ⟨by simp, Event.settled_of_nil ?_⟩).symm
    exact resolutions_perform h (by simp)

/-- A step that stops a traversal is a broken rule, or the use of a name that finds no
declaration. -/
lemma perform_eq_error {env p v} {step : Step} (h : step.perform env p = .error v) :
    step = .violate v ∨
      ∃ u, step = .use u ∧ Access.classify u.asPointer (p.lookup? env.tree u.name) = .unresolved ∧
        v = ⟨.undefinedIdentifier u.name, u.span⟩ := by
  cases step with
  | use u =>
    right
    rw [perform, Policy.resolve] at h
    by_cases hu : Access.classify u.asPointer (p.lookup? env.tree u.name) = .unresolved ∧
        env.policy = .strict
    · rw [if_pos hu] at h
      cases h
      exact ⟨u, rfl, hu.1, rfl⟩
    · rw [if_neg hu] at h
      cases h
  | violate w =>
    left
    rw [perform] at h
    split at h <;> cases h
    rfl
  | operate kind span =>
    rw [perform] at h
    split at h <;> cases h
  | _ => cases h

end Step

/-! ## Runs -/

namespace Runs

/-- There is one run of the same steps from the same position. -/
lemma unique {env p q r steps es fs} (rn : Runs env p steps es q) (rm : Runs env p steps fs r) :
    es = fs ∧ q = r := by
  have e := rn.run_eq.symm.trans rm.run_eq
  cases e
  exact ⟨rfl, rfl⟩

/-- The runs under the strict policy are those under the permissive one that break no rule. -/
lemma strict_iff {lex tree p q steps es} :
    Runs ⟨lex, .strict, tree⟩ p steps es q ↔
      Runs ⟨lex, .permissive, tree⟩ p steps es q ∧ Step.Clean steps ∧ Event.Settled es := by
  constructor
  · intro rn
    induction rn with
    | nil => exact ⟨.nil, Step.clean_nil, nofun⟩
    | cons h _ ih =>
      obtain ⟨hp, hv, hs⟩ := Step.perform_strict_iff.mp h
      obtain ⟨rn, clean, settled⟩ := ih
      exact ⟨.cons hp rn, Step.clean_cons.mpr ⟨hv, clean⟩, Event.settled_append.mpr ⟨hs, settled⟩⟩
  · rintro ⟨rn, clean, settled⟩
    induction rn with
    | nil => exact .nil
    | cons h _ ih =>
      obtain ⟨hv, clean⟩ := Step.clean_cons.mp clean
      obtain ⟨hs, settled⟩ := Event.settled_append.mp settled
      exact .cons (Step.perform_strict_iff.mpr ⟨h, hv, hs⟩) (ih clean settled)

end Runs

/-! ## Passes -/

namespace Program

/-- With a beginning of the decisions written in, the occurrences up to some point are as with all
decisions, and the others as before. -/
lemma annotated_cut {p : Program} {done pending}
    (h : Mention.resolutions p.scopes [] p.mentions = done ++ pending) :
    ∃ n, (p.annotated done).occurrences.take n =
        (p.annotated (done ++ pending)).occurrences.take n ∧
      (((p.annotated done).occurrences.take n).filter Occurrence.isVisited).map
        Occurrence.resolution? = done.map some ∧
      (p.annotated done).occurrences.drop n = p.occurrences.drop n := by
  obtain ⟨first, second, em, rfl⟩ := Mention.cut_resolutions h
  let marks := (Mention.resolutions p.scopes [] first).map Resolution.access
  let reached := (Mention.mark first marks).filterMap Mention.occurrence?
  -- There are as many marks as `first` takes, so that none is left for what comes after it.
  have hl : marks.length = first.countP Mention.isVisited := by
    rw [List.length_map, Mention.length_resolutions]
  have begun : (p.annotated (Mention.resolutions p.scopes [] first)).occurrences =
      reached ++ second.filterMap Mention.occurrence? := by
    rw [occurrences, annotated, mentions_annotate, em, Mention.mark_append,
      List.drop_eq_nil_of_le (Nat.le_of_eq hl), Mention.mark_nil, List.filterMap_append]
  obtain ⟨later, whole⟩ : ∃ later, (p.annotated
      (Mention.resolutions p.scopes [] first ++ pending)).occurrences = reached ++ later := by
    rw [occurrences, annotated, mentions_annotate, em, Mention.mark_append, List.map_append,
      Mention.mark_more (Nat.le_of_eq hl.symm), List.filterMap_append]
    exact ⟨_, rfl⟩
  have before : p.occurrences = first.filterMap Mention.occurrence? ++
      second.filterMap Mention.occurrence? := by
    rw [occurrences, em, List.filterMap_append]
  refine ⟨reached.length, ?_, ?_, ?_⟩
  · rw [begun, whole, List.take_left, List.take_left]
  · rw [begun, List.take_left]
    exact Mention.resolution?_mark p.scopes [] first
  · rw [begun, before, List.drop_left, ← (Mention.keeps_mark first marks).length_eq,
      List.drop_left]

/-- A permissive pass completes. -/
lemma exists_permissive (p : Program) (lex : Lexicon) :
    ∃ a, (p.analyze lex .permissive).result = .ok a := by
  obtain ⟨es, q, _, er⟩ | ⟨first, step, _, _, q, v, _, _, hv, _⟩ := p.analyze_cases lex .permissive
  · exact ⟨⟨es, q.overlay, q.scope⟩, by rw [er]⟩
  · obtain ⟨_, _, ok⟩ := step.perform_permissive lex p.scopes q
    cases hv.symm.trans ok

/-- A strict pass completes exactly if the permissive one breaks no rule, and finds the same. -/
lemma strict_iff {p : Program} {lex a b} (ok : (p.analyze lex .permissive).result = .ok a) :
    (p.analyze lex .strict).result = .ok b ↔
      b = a ∧ Step.Clean p.steps ∧ Event.Settled a.events := by
  obtain ⟨q, rn, ea, -⟩ := p.runs_of_analyze ok
  constructor
  · intro hb
    obtain ⟨r, rm, eb, -⟩ := p.runs_of_analyze hb
    obtain ⟨rm, clean, settled⟩ := Runs.strict_iff.mp rm
    obtain ⟨ee, rfl⟩ := rm.unique rn
    rw [eb, ee, ← ea]
    exact ⟨rfl, clean, ee ▸ settled⟩
  · rintro ⟨rfl, clean, settled⟩
    have rm : Runs (p.setting lex .strict) p.start p.steps b.events q :=
      Runs.strict_iff.mpr ⟨rn, clean, settled⟩
    obtain ⟨es, r, ro, er⟩ | ⟨_, _, _, _, _, _, e, ro, hv, _⟩ := p.analyze_cases lex .strict
    · obtain ⟨rfl, rfl⟩ := ro.unique rm
      rw [er, ea]
    · -- The pass cannot stop at a step that the complete run performs from the same position.
      rw [e] at rm
      obtain ⟨o, _, _, left, right, _⟩ := rm.split
      obtain ⟨-, rfl⟩ := left.unique ro
      cases right with
      | cons h _ => cases hv.symm.trans h

/-- A strict pass that fails stops at a step that the permissive one performs from the same
position, and with all uses before it settled. -/
lemma strict_halts {p : Program} {lex a v} (ok : (p.analyze lex .permissive).result = .ok a)
    (stopped : (p.analyze lex .strict).result = .error v) :
    ∃ step q r done es later, step ∈ p.steps ∧ Event.Settled done ∧
      step.perform (p.setting lex .strict) q = .error v ∧
      step.perform (p.setting lex .permissive) q = .ok (r, es) ∧
      a.events = done ++ (es ++ later) ∧
      (p.analyze lex .strict).program = p.annotated (Event.resolutions done) ∧
      Event.resolutions (p.analyze lex .strict).events = Event.resolutions done := by
  obtain ⟨o, rn, -, -⟩ := p.runs_of_analyze ok
  obtain ⟨_, _, _, er⟩ | ⟨first, step, rest, done, q, w, e, rm, hv, er, ep⟩ :=
    p.analyze_cases lex .strict
  · rw [er] at stopped
    cases stopped
  · obtain ⟨rm, -, settled⟩ := Runs.strict_iff.mp rm
    cases er.symm.trans stopped
    have here : step ∈ p.steps := by
      rw [e]
      exact List.mem_append_right _ List.mem_cons_self
    rw [e] at rn
    obtain ⟨_, _, _, left, right, hs⟩ := rn.split
    obtain ⟨rfl, rfl⟩ := left.unique rm
    cases right with
    | cons hp _ => exact ⟨step, _, _, _, _, _, here, settled, hv, hp, hs, ep⟩

/-- A strict pass that fails has decided a beginning of what the permissive one decides. -/
lemma strict_stopped {p : Program} {lex a v} (ok : (p.analyze lex .permissive).result = .ok a)
    (stopped : (p.analyze lex .strict).result = .error v) :
    ∃ done pending, a.resolutions = done ++ pending ∧
      (p.analyze lex .strict).program = p.annotated done ∧
      Event.resolutions (p.analyze lex .strict).events = done := by
  obtain ⟨_, _, _, done, es, later, -, -, -, -, hs, ep⟩ := strict_halts ok stopped
  refine ⟨Event.resolutions done, Event.resolutions (es ++ later), ?_, ep⟩
  rw [← Event.resolutions_append, ← hs]
  rfl

/-- Where no other rule is broken, a strict pass stops at the first name that the permissive one
leaves without a declaration. -/
lemma strict_error_of_find? {p : Program} {lex a r}
    (ok : (p.analyze lex .permissive).result = .ok a) (clean : Step.Clean p.steps)
    (first : a.resolutions.find? (fun x => x.access = .unresolved) = some r) :
    (p.analyze lex .strict).result = .error ⟨.undefinedIdentifier r.name, r.span⟩ := by
  cases stopped : (p.analyze lex .strict).result with
  | ok b =>
    -- A complete strict pass would have settled `r`.
    obtain ⟨-, -, settled⟩ := (strict_iff ok).mp stopped
    have unsettled : r.access = .unresolved := by simpa using List.find?_some first
    exact absurd unsettled (settled r (List.mem_of_find?_eq_some first))
  | error v =>
    obtain ⟨step, q, _, done, es, later, here, settled, hv, hp, hs, -⟩ := strict_halts ok stopped
    obtain rfl | ⟨u, rfl, hu, rfl⟩ := Step.perform_eq_error hv
    · exact absurd here (clean v)
    · have told : es = [.resolved ⟨u.name, .unresolved, u.isMember, u.span⟩ q.scope] := by
        rw [(Step.perform_use hp).2, ← hu]
        rfl
      -- All is settled before the use that stopped the pass, which is therefore `r`.
      have before : (Event.resolutions done).find? (fun x => x.access = .unresolved) = none :=
        List.find?_eq_none.mpr fun x hx => by simpa using settled x hx
      have same : some r = some ⟨u.name, .unresolved, u.isMember, u.span⟩ := by
        rw [← first, Analysis.resolutions, hs, told, ← Event.resolutions,
          Event.resolutions_append, List.find?_append, before]
        rfl
      cases same
      rfl

/-- A permissive pass completes. A strict one does so exactly if every use is resolved, every return
fits its function and the members of every enumeration differ, and then finds the same. If it fails,
its own decisions are a beginning of the permissive ones, and it has annotated the program with
these. -/
theorem strict_refines (p : Program) (lex : Lexicon) :
    ∃ a, (p.analyze lex .permissive).result = .ok a ∧
      ((∃ b, (p.analyze lex .strict).result = .ok b) ↔
        (∀ r ∈ a.resolutions, r.access ≠ .unresolved) ∧ p.ReturnsFit ∧ p.MembersDiffer) ∧
      (∀ b, (p.analyze lex .strict).result = .ok b →
        b = a ∧ (p.analyze lex .strict).program = (p.analyze lex .permissive).program) ∧
      ∀ v, (p.analyze lex .strict).result = .error v →
        v.fault = .semantic v.error.message v.span ∧
        ∃ n done pending, a.resolutions = done ++ pending ∧
          Event.resolutions (p.analyze lex .strict).events = done ∧
          (p.analyze lex .strict).program.occurrences.take n =
            (p.analyze lex .permissive).program.occurrences.take n ∧
          (((p.analyze lex .strict).program.occurrences.take n).filter Occurrence.isVisited).map
            Occurrence.resolution? = done.map some ∧
          (p.analyze lex .strict).program.occurrences.drop n = p.occurrences.drop n ∧
          (p.analyze lex .strict).program.bare = p.bare := by
  obtain ⟨a, ok⟩ := p.exists_permissive lex
  obtain ⟨_, _, _, ep⟩ := p.runs_of_analyze ok
  refine ⟨a, ok, ?_, ?_, ?_⟩
  · constructor
    · rintro ⟨b, hb⟩
      obtain ⟨-, clean, settled⟩ := (strict_iff ok).mp hb
      exact ⟨settled, p.clean_iff.mp clean⟩
    · rintro ⟨settled, lawful⟩
      exact ⟨a, (strict_iff ok).mpr ⟨rfl, p.clean_iff.mpr lawful, settled⟩⟩
  · intro b hb
    obtain ⟨rfl, -, -⟩ := (strict_iff ok).mp hb
    obtain ⟨_, _, _, eb⟩ := p.runs_of_analyze hb
    exact ⟨rfl, eb.trans ep.symm⟩
  · intro v hv
    obtain ⟨done, pending, er, es, own⟩ := strict_stopped ok hv
    obtain ⟨n, reached, decided, left⟩ := annotated_cut ((p.resolutions_eq ok).symm.trans er)
    refine ⟨rfl, n, done, pending, er, own, ?_⟩
    rw [ep, er, es]
    exact ⟨reached, decided, left, p.bare_annotate _⟩

end Program

end FrontEnd
