import FrontEnd.Proofs.Analysis.Brackets
import FrontEnd.Proofs.Analysis.Declaring

/-!
# What steps read and write

Steps look at the overlay for the names that they use or declare (`Step.Concerns`) and change it for
those that they declare (`Step.Declares`). Two traversals that agree on the names of some steps
do the same on them (`Runs.agree`), and other names are left alone (`Runs.find?_eq`). So two parts
of a pass can be exchanged if neither declares a name of the other.

Main statement: `Runs.exchange`.
-/

namespace FrontEnd

namespace Step

/-- The name that a step uses or declares. -/
def name? : Step → Option String
  | declare d => some d.name
  | use u => some u.name
  | enter _ | leave | operate _ _ | importLiteral _ _ | violate _ | remark _ => none

/-- The name that a step declares. -/
def declaredName? : Step → Option String
  | declare d => some d.name
  | enter _ | leave | use _ | operate _ _ | importLiteral _ _ | violate _ | remark _ => none

/-- Some of the steps use or declare a name. -/
def Concerns (steps : List Step) (name : String) : Prop :=
  ∃ step ∈ steps, step.name? = some name

/-- Some of the steps declare a name. -/
def Declares (steps : List Step) (name : String) : Prop :=
  ∃ step ∈ steps, step.declaredName? = some name

/-- The first steps declare no name that the others use or declare. -/
def Spares (first second : List Step) : Prop :=
  ∀ name, Declares first name → ¬ Concerns second name

/-- Steps are concerned with the names that they declare. -/
lemma Declares.concerns {steps : List Step} {name : String} (h : Declares steps name) :
    Concerns steps name := by
  obtain ⟨step, hm, hn⟩ := h
  cases step with
  | declare d => exact ⟨.declare d, hm, hn⟩
  | _ => cases hn

end Step

/-! ## Agreement on names -/

/-- A quiet step does the same everywhere. -/
lemma Step.perform_quiet_at {env p r es} {step : Step} (qt : step.isQuiet)
    (h : step.perform env p = .ok (r, es)) (q : Position) :
    step.perform env q = .ok (q, es) := by
  cases step with
  | operate kind span =>
    rw [Step.perform] at h ⊢
    split at h
    · cases h
      rw [if_pos ‹_›]
    · cases h
      rw [if_neg ‹_›]
  | importLiteral value span =>
    cases h
    rfl
  | violate v =>
    rw [Step.perform] at h ⊢
    split at h
    · cases h
      rfl
    · cases h
  | remark r =>
    cases h
    rfl
  | _ => cases qt

/-- Two positions are at the same place, and their overlays have the same declarations of some
names. -/
structure Position.Agree (names : String → Prop) (p q : Position) : Prop where
  scope : p.scope = q.scope
  saved : p.saved = q.saved
  find? : ∀ s name, names name → p.overlay.find? s name = q.overlay.find? s name

namespace Position.Agree

variable {names : String → Prop} {p q : Position}

/-- Two positions agree with each other. -/
lemma symm (ag : Agree names p q) : Agree names q p :=
  ⟨ag.scope.symm, ag.saved.symm, fun s name hn => (ag.find? s name hn).symm⟩

/-- Lookups of such a name find the same. -/
lemma lookup?_eq (ag : Agree names p q) (tree : ScopeTree) {name : String} (hn : names name) :
    p.lookup? tree name = q.lookup? tree name := by
  unfold Position.lookup?
  rw [ag.scope]
  congr 1
  funext s
  unfold Position.declared?
  rw [ag.find? s name hn]

/-- Declaring such a name does the same. -/
lemma declare (ag : Agree names p q) (tree : ScopeTree) {d : Declaration} (hn : names d.name) :
    (p.declare tree d).2 = (q.declare tree d).2 ∧
      Agree names (p.declare tree d).1 (q.declare tree d).1 := by
  unfold Position.declare
  rw [ag.scope, ag.find? _ _ hn]
  split
  · exact ⟨rfl, ag⟩
  · refine ⟨rfl, rfl, ag.saved, fun s name hname => ?_⟩
    simp only [Overlay.find?_insert, ag.find? s name hname]

/-- A step about such a name, or about none, does the same. -/
lemma perform (ag : Agree names p q) {env : Setting} {step : Step} {r es}
    (hn : ∀ name, step.name? = some name → names name)
    (h : step.perform env p = .ok (r, es)) :
    ∃ t, step.perform env q = .ok (t, es) ∧ Agree names r t := by
  cases step with
  | enter s =>
    cases h
    refine ⟨q.enter s, by rw [Step.perform, ag.scope], rfl, ?_, ag.find?⟩
    rw [Position.enter, Position.enter, ag.scope, ag.saved]
  | leave =>
    rw [Step.perform, Position.leave, ag.saved] at h
    rw [Step.perform, Position.leave]
    cases hq : q.saved with
    | nil =>
      rw [hq] at h
      cases h
      exact ⟨q, rfl, ag⟩
    | cons target saved =>
      rw [hq] at h
      cases h
      exact ⟨{ q with scope := target, saved }, by rw [ag.scope], rfl, rfl, ag.find?⟩
  | declare d =>
    obtain ⟨he, agd⟩ := ag.declare env.tree (hn d.name rfl)
    have e : p.declare env.tree d = (r, es) := Except.ok.inj h
    rw [e] at he agd
    obtain rfl : es = (q.declare env.tree d).2 := he
    exact ⟨(q.declare env.tree d).1, rfl, agd⟩
  | use u =>
    rw [Step.perform, ag.lookup?_eq env.tree (hn u.name rfl)] at h
    rw [Step.perform]
    split at h
    · cases h
    · cases h
      exact ⟨q, by rw [ag.scope], ag⟩
  | _ =>
    obtain ⟨rfl, -⟩ := Step.perform_quiet rfl h
    exact ⟨q, Step.perform_quiet_at rfl h q, ag⟩

end Position.Agree

namespace Runs

/-- From positions that agree on the names of some steps, these steps do the same. -/
lemma agree {env p q steps es names} (rn : Runs env p steps es q) {t : Position}
    (ag : p.Agree names t) (hn : ∀ name, Step.Concerns steps name → names name) :
    ∃ u, Runs env t steps es u ∧ q.Agree names u := by
  induction rn generalizing t with
  | nil => exact ⟨t, .nil, ag⟩
  | cons h _ ih =>
    obtain ⟨u, hu, agu⟩ := ag.perform (fun name he => hn name ⟨_, List.mem_cons_self, he⟩) h
    obtain ⟨w, rw, agw⟩ := ih agu fun name ⟨step, hm, he⟩ =>
      hn name ⟨step, List.mem_cons_of_mem _ hm, he⟩
    exact ⟨w, .cons hu rw, agw⟩

/-- Names that no step declares keep their declarations. -/
lemma find?_eq {env p q steps es name} (rn : Runs env p steps es q)
    (hn : ¬ Step.Declares steps name) (s : ScopeId) :
    q.overlay.find? s name = p.overlay.find? s name := by
  induction rn with
  | nil => rfl
  | @cons p q r step rest es fs h _ ih =>
    have keep : q.overlay.find? s name = p.overlay.find? s name := by
      obtain e | ⟨d, hd, e⟩ := Step.overlay_perform h
      · rw [e]
      · rw [e, Overlay.find?_insert, if_neg]
        rintro ⟨-, rfl⟩
        exact hn ⟨step, List.mem_cons_self, by rw [hd]; rfl⟩
    rw [ih fun ⟨step, hm, he⟩ => hn ⟨step, List.mem_cons_of_mem _ hm, he⟩, keep]

end Runs

/-! ## Exchanging two parts -/

/-- A run of steps that tell mentions comes back to where it began. -/
lemma Tells.returns {s steps ms} (tl : Tells s steps ms) {env p q es}
    (rn : Runs env p steps es q) : q.scope = p.scope ∧ q.saved = p.saved := by
  have plain {p q es} {step : Step} (pl : step.isPlain) (rn : Runs env p [step] es q) :
      q.scope = p.scope ∧ q.saved = p.saved := by
    obtain ⟨hs, hv, -⟩ := Step.perform_plain pl rn.one_inv
    exact ⟨hs, hv⟩
  induction tl generalizing p q es with
  | nil | skip =>
    obtain ⟨rfl, -⟩ := rn.nil_inv
    exact ⟨rfl, rfl⟩
  | append _ _ ihm ihn =>
    obtain ⟨o, _, _, left, right, -⟩ := rn.split
    obtain ⟨hs, hv⟩ := ihm left
    obtain ⟨ht, hw⟩ := ihn right
    exact ⟨ht.trans hs, hw.trans hv⟩
  | quiet qt => exact plain (Step.isPlain_of_isQuiet qt) rn
  | declare | use => exact plain rfl rn
  | block _ ih =>
    obtain ⟨o, _, inside, rfl, -⟩ := rn.block_inv
    obtain ⟨-, hv⟩ := ih inside
    rw [Position.leave, hv]
    exact ⟨rfl, rfl⟩

/-- A part that declares no name of other steps leaves the position as it was for these. -/
lemma Tells.agree {s steps ms} (tl : Tells s steps ms) {env p q es other}
    (rn : Runs env p steps es q) (sp : Step.Spares steps other) :
    p.Agree (Step.Concerns other) q := by
  obtain ⟨hs, hv⟩ := tl.returns rn
  exact ⟨hs.symm, hv.symm, fun s name hn => (rn.find?_eq (fun hd => sp name hd hn) s).symm⟩

/-- Two parts of which neither declares a name of the other can be exchanged. Each does what it
did, and all names have the same declarations in the end. -/
lemma Runs.exchange {env p m q first second es fs s t ms ns} (rn : Runs env p first es m)
    (rm : Runs env m second fs q) (tf : Tells s first ms) (ts : Tells t second ns)
    (sf : Step.Spares first second) (ss : Step.Spares second first) :
    ∃ n r, Runs env p second fs n ∧ Runs env n first es r ∧ q.Agree (fun _ => True) r := by
  obtain ⟨n, rs, agn⟩ := rm.agree (tf.agree rn sf).symm fun _ => id
  obtain ⟨r, rf, agr⟩ := rn.agree (ts.agree rs ss) fun _ => id
  obtain ⟨hs, hv⟩ := ts.returns rm
  refine ⟨n, r, rs, rf, hs.trans agr.scope, hv.trans agr.saved, fun s name _ => ?_⟩
  -- One of the parts at most declares the name, and the other one leaves it alone.
  by_cases hf : Step.Declares first name
  · have off : ¬ Step.Declares second name := fun h => sf name hf h.concerns
    rw [rm.find?_eq off, agr.find? s name hf.concerns]
  · rw [rf.find?_eq hf]
    by_cases hd : Step.Declares second name
    · exact agn.find? s name hd.concerns
    · rw [rm.find?_eq hd, rn.find?_eq hf, rs.find?_eq hd]

/-! ## The names of what is told -/

/-- Steps declare what they tell as declared. -/
lemma Tells.mem_declarations {s steps ms d} (tl : Tells s steps ms) (h : .declare d ∈ steps) :
    ∃ r, (r, d) ∈ Mention.declarations ms := by
  induction tl with
  | nil => cases h
  | append _ _ ihm ihn =>
    rw [Mention.declarations_append]
    rcases List.mem_append.mp h with h | h
    · obtain ⟨r, hr⟩ := ihm h
      exact ⟨r, List.mem_append_left _ hr⟩
    · obtain ⟨r, hr⟩ := ihn h
      exact ⟨r, List.mem_append_right _ hr⟩
  | quiet qt =>
    obtain rfl := List.mem_singleton.mp h
    cases qt
  | @declare s e =>
    cases List.mem_singleton.mp h
    exact ⟨s, List.mem_singleton_self _⟩
  | use _ => cases List.mem_singleton.mp h
  | skip _ => cases h
  | block _ ih =>
    apply ih
    simpa using h

/-- Steps use the names of the identifiers that they tell. -/
lemma Tells.mem_identifiers {s steps ms u} (tl : Tells s steps ms) (h : .use u ∈ steps) :
    ∃ i ∈ Mention.identifiers ms, i.name = u.name := by
  induction tl with
  | nil => cases h
  | append _ _ ihm ihn =>
    rw [Mention.identifiers_append]
    rcases List.mem_append.mp h with h | h
    · obtain ⟨i, hi, hn⟩ := ihm h
      exact ⟨i, List.mem_append_left _ hi, hn⟩
    · obtain ⟨i, hi, hn⟩ := ihn h
      exact ⟨i, List.mem_append_right _ hi, hn⟩
  | quiet qt =>
    obtain rfl := List.mem_singleton.mp h
    cases qt
  | declare => cases List.mem_singleton.mp h
  | @use o _ =>
    cases List.mem_singleton.mp h
    exact ⟨o.identifier, List.mem_singleton_self _, rfl⟩
  | skip _ => cases h
  | block _ ih =>
    apply ih
    simpa using h

end FrontEnd
