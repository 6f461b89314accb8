import FrontEnd.Proofs.Analysis.Footprint
import FrontEnd.Proofs.Analysis.Marking
import FrontEnd.Proofs.Analysis.Sites
import FrontEnd.Proofs.Analysis.Strictness

/-!
# Independent statements commute

Two neighbouring statements of a block are independent if neither declares a name that the other
declares or refers to, at any depth. A pass does the same about each of them whichever comes first,
so it succeeds in both orders or in none, and the two passes differ only in the order of the two
runs of events. Every two neighbours of a block are the statements of some site
(`Program.exists_site`).

Main statement: `Site.analyze_exchange`.
-/

namespace FrontEnd

/-! ## Independent statements -/

namespace Stmt

/-- The names that a statement declares, itself or by a statement inside it. -/
def declaredNames (context : ScopeId) (s : Stmt) : List String :=
  (Stmt.declaresOf ((context, s) :: s.inner)).map fun entry => entry.2.name

/-- A statement declares no name that another one declares or refers to. -/
def Spares (context : ScopeId) (a b : Stmt) : Prop :=
  ∀ name ∈ a.declaredNames context,
    name ∉ b.declaredNames context ∧ name ∉ b.identifiers.map Identifier.name

/-- Neither of two statements of a block with this context declares a name that the other declares
or refers to. -/
def Independent (context : ScopeId) (a b : Stmt) : Prop :=
  a.Spares context b ∧ b.Spares context a

instance (context : ScopeId) (a b : Stmt) : Decidable (Spares context a b) :=
  inferInstanceAs (Decidable (∀ name ∈ a.declaredNames context,
    name ∉ b.declaredNames context ∧ name ∉ b.identifiers.map Identifier.name))

instance (context : ScopeId) (a b : Stmt) : Decidable (Independent context a b) :=
  inferInstanceAs (Decidable (_ ∧ _))

variable {tree : ScopeTree} {context : ScopeId} {a b s : Stmt}

/-- Independence does not depend on the order. -/
lemma Independent.symm (ind : Independent context a b) : Independent context b a :=
  ⟨ind.2, ind.1⟩

/-- What a step of a statement declares is among its declared names. -/
lemma mem_declaredNames {d : Declaration} (h : .declare d ∈ s.steps tree context) :
    d.name ∈ s.declaredNames context := by
  obtain ⟨r, hr⟩ := (s.tells tree context).mem_declarations h
  rw [Stmt.declarations_mentions, ← Stmt.declaresOf_cons] at hr
  exact List.mem_map.mpr ⟨(r, d), hr, rfl⟩

/-- What a step of a statement uses is among its identifiers. -/
lemma mem_identifiers {u : Use} (h : .use u ∈ s.steps tree context) :
    u.name ∈ s.identifiers.map Identifier.name := by
  obtain ⟨i, hi, hn⟩ := (s.tells tree context).mem_identifiers h
  rw [Stmt.identifiers_mentions] at hi
  exact List.mem_map.mpr ⟨i, hi, hn⟩

/-- The steps of a statement declare no name of a statement that it spares. -/
lemma Spares.steps (sp : a.Spares context b) :
    Step.Spares (a.steps tree context) (b.steps tree context) := by
  rintro name ⟨step, hs, hn⟩ ⟨other, ho, hm⟩
  cases step with
  | declare d =>
    cases hn
    obtain ⟨undeclared, unused⟩ := sp d.name (mem_declaredNames hs)
    cases other with
    | declare e =>
      apply undeclared
      rw [← Option.some.inj hm]
      exact mem_declaredNames ho
    | use u =>
      apply unused
      rw [← Option.some.inj hm]
      exact mem_identifiers ho
    | _ => cases hm
  | _ => cases hn

end Stmt

/-! ## Parts of lists -/

/-- Two lists that are the same but for the order of two neighbouring parts. -/
structure Swaps {α : Type} (before first second after xs ys : List α) : Prop where
  left : xs = before ++ first ++ second ++ after
  right : ys = before ++ second ++ first ++ after

namespace Swaps

variable {α β : Type} {before first second after xs ys : List α}

/-- What is read off the items one by one is swapped as they are. -/
lemma filterMap (sw : Swaps before first second after xs ys) (f : α → Option β) :
    Swaps (before.filterMap f) (first.filterMap f) (second.filterMap f) (after.filterMap f)
      (xs.filterMap f) (ys.filterMap f) := by
  obtain ⟨rfl, rfl⟩ := sw
  exact ⟨by simp only [List.filterMap_append], by simp only [List.filterMap_append]⟩

/-- A swap does not change how many items have a property. -/
lemma countP_eq (sw : Swaps before first second after xs ys) (f : α → Bool) :
    xs.countP f = ys.countP f := by
  obtain ⟨rfl, rfl⟩ := sw
  simp only [List.countP_append]
  omega

end Swaps

/-! ## Marks of parts -/

/-- The accesses that events decide on. -/
def Event.accesses (es : List Event) : List Access :=
  (Event.resolutions es).map Resolution.access

/-- As many accesses are decided on as there are uses. -/
lemma Runs.length_accesses {env p q steps es} (rn : Runs env p steps es q) :
    (Event.accesses es).length = steps.countP Step.isUse := by
  rw [Event.accesses, List.length_map]
  induction rn with
  | nil => rfl
  | @cons _ _ _ step rest es fs h _ ih =>
    rw [Event.resolutions_append, List.length_append, ih]
    cases step with
    | use u =>
      obtain ⟨-, rfl⟩ := Step.perform_use h
      rw [List.countP_cons_of_pos rfl, Nat.add_comm]
      rfl
    | _ =>
      rw [Step.resolutions_perform h (by simp), List.countP_cons_of_neg (by simp [Step.isUse])]
      exact Nat.zero_add _

/-- Marks for two parts go to the one and the other. -/
lemma Mention.mark_parts {ms : List Mention} {marks : List Access}
    (hl : marks.length = ms.countP isVisited) (ns : List Mention) (more : List Access) :
    mark (ms ++ ns) (marks ++ more) = mark ms marks ++ mark ns more := by
  rw [mark_append, mark_more (Nat.le_of_eq hl.symm), ← hl, List.drop_left]

/-! ## Passes -/

/-- A complete run of the steps of a program is a pass that succeeds. -/
lemma Program.analyze_of_runs {p : Program} {lex policy es q}
    (rn : Runs (p.setting lex policy) p.start p.steps es q) :
    (p.analyze lex policy).result = .ok ⟨es, q.overlay, q.scope⟩ := by
  rw [Program.analyze, p.traverse_eq, rn.runFlat_eq]

/-- A run of the steps of a statement decides on an access for each visited occurrence in it. -/
lemma Stmt.length_accesses {env p q context es} {s : Stmt} {tree : ScopeTree}
    (rn : Runs env p (s.steps tree context) es q) :
    (Event.accesses es).length = (s.mentions tree context).countP Mention.isVisited := by
  rw [rn.length_accesses, (s.tells tree context).countP_isUse]

namespace Site

variable {site : Site} {a b : Stmt} {lex : Lexicon} {policy : Policy} {x y : Analysis}

/-- The events of a run over a program with two statements in its gap: those of the steps before the
statements, those that each of them contributes, and those of the steps behind them. -/
def Contributes (site : Site) (env : Setting) (steps rest : List Step) (a b : Stmt)
    (first es fs last : List Event) (q : Position) : Prop :=
  ∃ o m n, Runs env ⟨site.block.context, [], .empty⟩ steps first o ∧
    Runs env o (a.steps site.scopes site.scope) es m ∧
    Runs env m (b.steps site.scopes site.scope) fs n ∧ Runs env n rest last q

/-- How a pass over a program with two statements in its gap compares to one with the two in the
other order: each contributes the same to both, in its turn, and all accesses and declarations are
the same. -/
structure Exchanges (site : Site) (lex : Lexicon) (policy : Policy) (a b : Stmt) (x y : Analysis) :
    Prop where
  parts : ∃ steps rest before after first es fs last, site.Framed steps rest before after ∧
    (∃ q, site.Contributes ⟨lex, policy, site.scopes⟩ steps rest a b first es fs last q) ∧
    (∃ q, site.Contributes ⟨lex, policy, site.scopes⟩ steps rest b a first fs es last q) ∧
    Swaps first es fs last x.events y.events ∧
    Swaps (Event.resolutions first) (Event.resolutions es) (Event.resolutions fs)
      (Event.resolutions last) x.resolutions y.resolutions ∧
    Swaps (Event.notes first) (Event.notes es) (Event.notes fs) (Event.notes last)
      x.notes y.notes ∧
    Swaps (Mention.mark before (Event.accesses first))
      (Mention.mark (a.mentions site.scopes site.scope) (Event.accesses es))
      (Mention.mark (b.mentions site.scopes site.scope) (Event.accesses fs))
      (Mention.mark after (Event.accesses last))
      ((site.fill [a, b]).analyze lex policy).program.mentions
      ((site.fill [b, a]).analyze lex policy).program.mentions
  declaration : ∀ s name, x.declaration? s name = y.declaration? s name
  pushes : x.pushes = y.pushes
  pops : x.pops = y.pops
  finalScope : x.finalScope = y.finalScope

/-- A pass starts in the same place, whatever is in the gap. -/
lemma start_fill (site : Site) (ss : List Stmt) :
    (site.fill ss).start = ⟨site.block.context, [], .empty⟩ := by
  rw [Program.start, Program.context, Site.fill, BlockGap.context_fill]

section

variable {env : Setting} {steps rest : List Step} {before after : List Mention}
  {first es fs last : List Event} {q : Position}

/-- The steps of two statements in a gap. -/
lemma Framed.steps_pair (fr : site.Framed steps rest before after) (a b : Stmt) :
    (site.fill [a, b]).steps =
      steps ++ (a.steps site.scopes site.scope ++ b.steps site.scopes site.scope) ++ rest := by
  rw [fr.steps, Stmt.stepsOf, Stmt.stepsOf, Stmt.stepsOf, List.append_nil]

/-- A run over the program is put together from its parts. -/
lemma Contributes.runs (ct : site.Contributes env steps rest a b first es fs last q)
    (fr : site.Framed steps rest before after) :
    Runs env (site.fill [a, b]).start (site.fill [a, b]).steps (first ++ es ++ fs ++ last) q := by
  obtain ⟨o, m, n, front, left, right, back⟩ := ct
  rw [fr.steps_pair, start_fill]
  have whole := (front.append (left.append right)).append back
  rwa [← List.append_assoc first] at whole

/-- The accesses that two statements in a gap and what stands around them get. -/
lemma Contributes.mentions_annotated (ct : site.Contributes env steps rest a b first es fs last q)
    (fr : site.Framed steps rest before after) :
    ((site.fill [a, b]).annotated (Event.resolutions (first ++ es ++ fs ++ last))).mentions =
      Mention.mark before (Event.accesses first) ++
        Mention.mark (a.mentions site.scopes site.scope) (Event.accesses es) ++
        Mention.mark (b.mentions site.scopes site.scope) (Event.accesses fs) ++
        Mention.mark after (Event.accesses last) := by
  obtain ⟨o, m, n, front, left, right, -⟩ := ct
  have visits : (Event.accesses first).length = before.countP Mention.isVisited :=
    front.length_accesses.trans fr.visits
  have marks : (Event.resolutions (first ++ es ++ fs ++ last)).map Resolution.access =
      Event.accesses first ++ (Event.accesses es ++
        (Event.accesses fs ++ Event.accesses last)) := by
    simp only [Event.resolutions_append, List.map_append, List.append_assoc, Event.accesses]
  rw [Program.annotated, Program.mentions_annotate, marks, fr.mentions, Stmt.mentionsOf,
    Stmt.mentionsOf, Stmt.mentionsOf, List.append_nil, List.append_assoc, List.append_assoc,
    Mention.mark_parts visits, Mention.mark_parts (Stmt.length_accesses left),
    Mention.mark_parts (Stmt.length_accesses right)]
  simp only [List.append_assoc]

/-- Independent statements contribute the same in the other order. -/
lemma Framed.exchange (fr : site.Framed steps rest before after)
    (ind : Stmt.Independent site.scope a b) {gs : List Event}
    (rn : Runs env (site.fill [a, b]).start (site.fill [a, b]).steps gs q) :
    ∃ first es fs last r, gs = first ++ es ++ fs ++ last ∧
      site.Contributes env steps rest a b first es fs last q ∧
      site.Contributes env steps rest b a first fs es last r ∧ q.Agree (fun _ => True) r := by
  rw [fr.steps_pair, start_fill] at rn
  obtain ⟨n, _, last, upTo, back, rfl⟩ := rn.split
  obtain ⟨o, first, _, front, both, rfl⟩ := upTo.split
  obtain ⟨m, es, fs, left, right, rfl⟩ := both.split
  obtain ⟨l, u, earlier, later, ag⟩ :=
    left.exchange right (a.tells _ _) (b.tells _ _) ind.1.steps ind.2.steps
  obtain ⟨r, behind, agr⟩ := back.agree ag fun _ _ => trivial
  exact ⟨first, es, fs, last, r, by simp only [List.append_assoc],
    ⟨o, m, n, front, left, right, back⟩, ⟨o, l, u, front, earlier, later, behind⟩, agr⟩

end

/-- From a pass that succeeds one is made that succeeds on the exchanged statements. -/
lemma exists_exchanges (ind : Stmt.Independent site.scope a b)
    (ok : ((site.fill [a, b]).analyze lex policy).result = .ok x) :
    ∃ y, ((site.fill [b, a]).analyze lex policy).result = .ok y ∧
      site.Exchanges lex policy a b x y := by
  obtain ⟨steps, rest, before, after, frame⟩ := site.exists_framed
  obtain ⟨q, rn, ex, px⟩ := Program.runs_of_analyze ok
  obtain ⟨first, es, fs, last, r, cut, one, other, ag⟩ := frame.exchange ind rn
  have oky := Program.analyze_of_runs (p := site.fill [b, a]) (other.runs frame)
  obtain ⟨_, _, _, py⟩ := Program.runs_of_analyze oky
  have swap : Swaps first es fs last x.events (first ++ fs ++ es ++ last) := ⟨cut, rfl⟩
  have marks := one.mentions_annotated frame
  rw [← cut] at marks
  have marksx := (congrArg Program.mentions px).trans marks
  have marksy := (congrArg Program.mentions py).trans (other.mentions_annotated frame)
  refine ⟨_, oky, ⟨steps, rest, before, after, first, es, fs, last, frame, ⟨q, one⟩, ⟨r, other⟩,
    swap, swap.filterMap _, swap.filterMap _, ⟨marksx, marksy⟩⟩, fun s name => ?_, swap.countP_eq _,
    swap.countP_eq _, ?_⟩
  · rw [ex]
    exact ag.find? s name trivial
  · rw [ex]
    exact ag.scope

/-- Independent statements commute: a pass succeeds in both orders or in none, and both passes find
the same, but for the order of what they find about the two statements. -/
theorem analyze_exchange (independent : Stmt.Independent site.scope a b) (lex : Lexicon)
    (policy : Policy) :
    ((∃ x, ((site.fill [a, b]).analyze lex policy).result = .ok x) ↔
      ∃ y, ((site.fill [b, a]).analyze lex policy).result = .ok y) ∧
    ∀ x y, ((site.fill [a, b]).analyze lex policy).result = .ok x →
      ((site.fill [b, a]).analyze lex policy).result = .ok y →
      site.Exchanges lex policy a b x y := by
  refine ⟨⟨?_, ?_⟩, ?_⟩
  · rintro ⟨x, okx⟩
    obtain ⟨y, oky, -⟩ := exists_exchanges independent okx
    exact ⟨y, oky⟩
  · rintro ⟨y, oky⟩
    obtain ⟨x, okx, -⟩ := exists_exchanges independent.symm oky
    exact ⟨x, okx⟩
  · intro x y okx oky
    obtain ⟨z, okz, ex⟩ := exists_exchanges independent okx
    obtain rfl := Except.ok.inj (okz.symm.trans oky)
    exact ex

end Site

/-- A branch with a gap, after a variable and before uses of what the gap declares. -/
def awaiting : Site :=
  let use (name : String) (place : Nat) : Stmt :=
    .expression (.ofName name ⟨place, place + 1⟩) .origin
  let test := Expr.literal ⟨.boolean, "true"⟩ .origin
  let branch := ScopeTree.empty.openScope .root .block
  ⟨.mk .root (.inside [.variables [⟨"z", true, false, none⟩] .origin] (.alternate test none
    (.consequent test (.mk branch.1 (.here [] [use "x" 1, use "f" 2]) .origin) .absent) .origin) [])
    .origin, (branch.2.openFunction branch.1 []).2⟩

/-- A variable and a function for the gap, which both use the variable before it. -/
def awaited : Stmt × Stmt :=
  let body := .mk ⟨2⟩ [.expression (.ofName "r" ⟨5, 6⟩) .origin,
    .expression (.ofName "z" ⟨6, 7⟩) .origin] .origin
  (.variables [⟨"x", false, false, some (.ofName "z" ⟨4, 5⟩)⟩] .origin,
    .function "f" [⟨"r", true, false, .origin⟩] body true .origin)

/-- The variable and the function can be declared in both orders. -/
theorem awaiting_analyze_exchange :
    Stmt.Independent awaiting.scope awaited.1 awaited.2 ∧
    ∃ x y, ((awaiting.fill [awaited.1, awaited.2]).analyze .empty .strict).result = .ok x ∧
      ((awaiting.fill [awaited.2, awaited.1]).analyze .empty .strict).result = .ok y ∧
      awaiting.Exchanges .empty .strict awaited.1 awaited.2 x y := by
  have independent : Stmt.Independent awaiting.scope awaited.1 awaited.2 := by decide
  obtain ⟨-, exchanges⟩ := Site.analyze_exchange independent .empty .strict
  exact ⟨independent, _, _, rfl, rfl, exchanges _ _ rfl rfl⟩

end FrontEnd
