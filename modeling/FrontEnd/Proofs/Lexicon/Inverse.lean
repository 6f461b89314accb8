import FrontEnd.Proofs.Lexicon.Freshness
import FrontEnd.Proofs.Text.ByteOrder
import Mathlib.Data.List.Nodup
import Mathlib.Data.Prod.Lex

/-!
# From kinds back to lexemes

A lexicon lists no lexeme twice (`Lexicon.Distinct`), whatever operations made it. So its listing is
the map from lexemes to kinds, and what is read off the listing by kinds depends on that map alone:
the least lexeme of a kind, and the entries in their order. If no operation chooses a kind that
another lexeme has at the time (`Lexicon.ChoosesFree`), the map is injective, and a kind leads back
to its lexeme.

Main statement: `Lexicon.after_inverts`.
-/

namespace FrontEnd

namespace Lexicon

/-! ## The lexemes of a listing -/

/-- No lexeme is listed twice. -/
def Distinct (lex : Lexicon) : Prop :=
  (lex.listing.map Prod.fst).Nodup

/-- Assigning a kind to a lexeme lists that lexeme and keeps the others. -/
lemma mem_lexemes_assign {lexeme kind listing other} :
    other ∈ (assign lexeme kind listing).map Prod.fst ↔
      other = lexeme ∨ other ∈ listing.map Prod.fst := by
  induction listing with
  | nil => simp [assign]
  | cons entry rest ih =>
    rw [assign]
    split
    · rename_i same
      simp [same]
    · rw [List.map_cons, List.map_cons, List.mem_cons, List.mem_cons, ih]
      exact or_left_comm

/-- A lexeme gets a kind in its place, or at the end if it is new. -/
lemma nodup_assign {lexeme kind listing} (nd : (listing.map Prod.fst).Nodup) :
    ((assign lexeme kind listing).map Prod.fst).Nodup := by
  induction listing with
  | nil => exact List.nodup_cons.mpr ⟨List.not_mem_nil, List.nodup_nil⟩
  | cons entry rest ih =>
    obtain ⟨new, nd⟩ := List.nodup_cons.mp nd
    rw [assign]
    split
    · rename_i same
      rw [← same]
      exact List.nodup_cons.mpr ⟨new, nd⟩
    · rename_i other
      refine List.nodup_cons.mpr ⟨fun listed => ?_, ih nd⟩
      exact (mem_lexemes_assign.mp listed).elim other new

namespace Distinct

/-- An empty lexicon lists no lexeme twice. -/
lemma empty : Distinct .empty :=
  List.nodup_nil

/-- No operation lists a lexeme twice. -/
lemma perform {lex : Lexicon} (dt : lex.Distinct) (op : Operation) :
    (lex.perform op).Distinct := by
  obtain ⟨_, rfl⟩ | e | ⟨_, _, as⟩ := lex.perform_cases op
  · exact dt
  · rwa [e]
  · rw [perform_of_assigns as]
    exact nodup_assign dt

/-- Nor does a run of operations. -/
lemma after {lex : Lexicon} (dt : lex.Distinct) (ops : List Operation) :
    (lex.after ops).Distinct := by
  induction ops generalizing lex with
  | nil => exact dt
  | cons op ops ih => exact ih (dt.perform op)

/-- Nor does the standard lexicon. -/
lemma standard : Distinct .standard := by
  obtain ⟨ops, e⟩ := exists_standard
  rw [e]
  exact empty.after ops

/-- The listing is the map from lexemes to kinds. -/
lemma mem_listing_iff {lex : Lexicon} (dt : lex.Distinct) {lexeme kind} :
    (lexeme, kind) ∈ lex.listing ↔ lex.kindOf lexeme = some kind := by
  obtain ⟨listing, _, _⟩ := lex
  unfold Distinct at dt
  unfold kindOf
  induction listing with
  | nil => exact iff_of_false List.not_mem_nil (by simp [kindIn])
  | cons entry rest ih =>
    obtain ⟨l, k⟩ := entry
    obtain ⟨new, dt⟩ := List.nodup_cons.mp dt
    by_cases same : l = lexeme
    · subst same
      have out : (l, kind) ∉ rest := fun hm => new (List.mem_map.mpr ⟨_, hm, rfl⟩)
      simp [kindIn, out, eq_comm]
    · have other : (lexeme, kind) ≠ (l, k) := fun e => same (congrArg Prod.fst e).symm
      rw [List.mem_cons, or_iff_right other, ih dt]
      simp [kindIn, same]

end Distinct

/-! ## The least lexeme of a kind -/

/-- Some texts have a least one unless there are none. -/
lemma leastText_eq_none_iff {texts : List String} : leastText texts = none ↔ texts = [] := by
  cases texts with
  | nil => exact iff_of_true rfl rfl
  | cons s rest =>
    rw [leastText]
    cases leastText rest <;> simp

/-- The least text is one of the texts and not above any of them. -/
lemma least_of_leastText {texts : List String} {s : String} (h : leastText texts = some s) :
    s ∈ texts ∧ ∀ t ∈ texts, s ≤ t := by
  induction texts generalizing s with
  | nil => cases h
  | cons u rest ih =>
    rw [leastText] at h
    cases hr : leastText rest with
    | none =>
      rw [hr] at h
      cases h
      rw [leastText_eq_none_iff.mp hr]
      simp
    | some t =>
      rw [hr] at h
      obtain ⟨here, least⟩ := ih hr
      dsimp only at h
      split_ifs at h with lt
      · cases h
        refine ⟨List.mem_cons_of_mem _ here, List.forall_mem_cons.mpr ⟨le_of_lt lt, least⟩⟩
      · cases h
        have le : u ≤ t := not_lt.mp lt
        exact ⟨List.mem_cons_self,
          List.forall_mem_cons.mpr ⟨le_rfl, fun x hx => le_trans le (least x hx)⟩⟩

/-- There is only one such text. -/
lemma leastText_eq_some_iff {texts : List String} {s : String} :
    leastText texts = some s ↔ s ∈ texts ∧ ∀ t ∈ texts, s ≤ t := by
  refine ⟨least_of_leastText, ?_⟩
  rintro ⟨here, least⟩
  cases h : leastText texts with
  | none =>
    rw [leastText_eq_none_iff.mp h] at here
    cases here
  | some t =>
    obtain ⟨there, le⟩ := least_of_leastText h
    rw [le_antisymm (le s here) (least t there)]

/-- The lexemes that are listed with a kind are those of that kind. -/
lemma Distinct.mem_lexemes_iff {lex : Lexicon} (dt : lex.Distinct) {lexeme kind} :
    lexeme ∈ (lex.listing.filter fun entry => entry.2 = kind).map Prod.fst ↔
      lex.kindOf lexeme = some kind := by
  rw [← dt.mem_listing_iff]
  simp

/-- A kind leads back to the first of its lexemes, byte by byte. -/
lemma Distinct.lexemeOf_eq_some_iff {lex : Lexicon} (dt : lex.Distinct) {lexeme kind} :
    lex.lexemeOf kind = some lexeme ↔ lex.kindOf lexeme = some kind ∧
      ∀ other, lex.kindOf other = some kind → lexeme = other ∨ Text.Precedes lexeme other := by
  simp only [lexemeOf, leastText_eq_some_iff, dt.mem_lexemes_iff, Text.precedes_iff,
    le_iff_eq_or_lt]

/-- A kind has no lexeme exactly if no lexeme has it. -/
lemma Distinct.lexemeOf_eq_none_iff {lex : Lexicon} (dt : lex.Distinct) {kind} :
    lex.lexemeOf kind = none ↔ ∀ lexeme, lex.kindOf lexeme ≠ some kind := by
  simp only [lexemeOf, leastText_eq_none_iff, List.eq_nil_iff_forall_not_mem, dt.mem_lexemes_iff,
    ne_eq]

/-! ## Entries in order -/

/-- An entry has a smaller code than another one, or the same kind and a lexeme that comes first,
byte by byte. -/
def Ahead (a b : String × TokenKind) : Prop :=
  a.2.code < b.2.code ∨ a.2 = b.2 ∧ Text.Precedes a.1 b.1

/-- Entries are ordered by code, and then by lexeme. -/
lemma entryLE_iff {a b : String × TokenKind} :
    entryLE a b ↔ toLex (a.2.code.toNat, a.1) ≤ toLex (b.2.code.toNat, b.1) := by
  rw [entryLE, Bool.or_eq_true, Bool.and_eq_true, decide_eq_true_eq, beq_iff_eq, Bool.not_eq_true',
    decide_eq_false_iff_not, not_lt, Prod.Lex.toLex_le_toLex, UInt16.lt_iff_toNat_lt,
    UInt16.toNat_inj]

/-- Of two entries with different lexemes the earlier one is strictly ahead. -/
lemma ahead_of_entryLE {a b : String × TokenKind} (le : entryLE a b) (ne : a.1 ≠ b.1) :
    Ahead a b := by
  rw [entryLE_iff, Prod.Lex.toLex_le_toLex] at le
  rcases le with lt | ⟨same, le⟩
  · exact .inl (UInt16.lt_iff_toNat_lt.mpr lt)
  · have kinds : a.2 = b.2 := congrArg TokenKind.mk (UInt16.toNat_inj.mp same)
    exact .inr ⟨kinds, Text.precedes_iff.mpr (lt_of_le_of_ne le ne)⟩

/-- The entries are strictly in order. -/
lemma Distinct.pairwise_entries {lex : Lexicon} (dt : lex.Distinct) :
    lex.entries.Pairwise Ahead := by
  have trans : ∀ a b c, entryLE a b → entryLE b c → entryLE a c := by
    intro a b c
    rw [entryLE_iff, entryLE_iff, entryLE_iff]
    exact le_trans
  have total : ∀ a b, entryLE a b || entryLE b a := by
    intro a b
    rw [Bool.or_eq_true, entryLE_iff, entryLE_iff]
    exact le_total _ _
  have sorted := List.pairwise_mergeSort trans total lex.listing
  have lexemes : (lex.entries.map Prod.fst).Nodup :=
    ((List.mergeSort_perm lex.listing entryLE).map Prod.fst).nodup_iff.mpr dt
  exact sorted.imp₂ (fun a b => ahead_of_entryLE) (List.pairwise_map.mp lexemes)

/-- The entries are the lexemes with their kinds, and nothing else. -/
lemma Distinct.mem_entries_iff {lex : Lexicon} (dt : lex.Distinct) {lexeme kind} :
    (lexeme, kind) ∈ lex.entries ↔ lex.kindOf lexeme = some kind := by
  rw [entries, List.mem_mergeSort, dt.mem_listing_iff]

/-- No entry is there twice. -/
lemma Distinct.nodup_entries {lex : Lexicon} (dt : lex.Distinct) : lex.entries.Nodup :=
  (List.mergeSort_perm lex.listing entryLE).nodup_iff.mpr (List.Nodup.of_map Prod.fst dt)

/-! ## Kinds that no other lexeme has -/

/-- Whenever an operation of a run chooses a kind, no other lexeme has it at that moment. -/
def ChoosesFree (start : Lexicon) (ops : List Operation) : Prop :=
  ∀ earlier lexeme kind later, ops = earlier ++ .insertWith lexeme kind :: later →
    ∀ other, (start.after earlier).kindOf other = some kind → other = lexeme

/-- No two lexemes have the same kind. -/
def Injective (lex : Lexicon) : Prop :=
  ∀ a b kind, lex.kindOf a = some kind → lex.kindOf b = some kind → a = b

/-- No choice is a free choice. -/
lemma ChoosesFree.nil {start : Lexicon} : start.ChoosesFree [] := by
  intro earlier lexeme kind later e
  cases earlier <;> cases e

/-- All choices of a run are free if the first is and the later ones are. -/
lemma choosesFree_cons {start : Lexicon} {op ops} :
    start.ChoosesFree (op :: ops) ↔
      (∀ lexeme kind, op = .insertWith lexeme kind →
        ∀ other, start.kindOf other = some kind → other = lexeme) ∧
      (start.perform op).ChoosesFree ops := by
  constructor
  · intro free
    refine ⟨fun lexeme kind e => free [] lexeme kind ops (congrArg (· :: ops) e), ?_⟩
    intro earlier lexeme kind later e
    exact free (op :: earlier) lexeme kind later (congrArg (op :: ·) e)
  · rintro ⟨first, rest⟩ earlier lexeme kind later e
    cases earlier with
    | nil =>
      cases e
      exact first lexeme kind rfl
    | cons other earlier =>
      cases e
      exact rest earlier lexeme kind later rfl

/-- No lexeme but the one that gets it has the kind that an operation gives away. -/
lemma only_of_assigns {lex : Lexicon} {op ops lexeme kind} (bl : lex.Below)
    (free : lex.ChoosesFree (op :: ops)) (as : lex.Assigns op lexeme kind) {other}
    (hk : lex.kindOf other = some kind) : other = lexeme := by
  cases as with
  | insert new ok =>
    -- A new lexeme gets the next kind, and all kinds are below that one.
    have next : lex.next = some kind := (insert_of_new new ok).1
    exact absurd (bl other kind kind hk next) (Nat.lt_irrefl _)
  | insertWith ok => exact (choosesFree_cons.mp free).1 lexeme kind rfl other hk

namespace Injective

/-- In an empty lexicon no two lexemes share a kind. -/
lemma empty : Injective .empty := by
  intro a b kind ha
  cases ha

/-- A free choice keeps kinds unshared, and so does a fresh kind, which is above all others. -/
lemma perform {lex : Lexicon} {op ops} (inj : lex.Injective) (bl : lex.Below)
    (free : lex.ChoosesFree (op :: ops)) : (lex.perform op).Injective := by
  intro a b kind ha hb
  obtain ⟨_, rfl⟩ | e | ⟨lexeme, given, as⟩ := lex.perform_cases op
  · exact inj a b kind ha hb
  · rw [e] at ha hb
    exact inj a b kind ha hb
  · rw [perform_of_assigns as, kindOf, kindIn_assign] at ha hb
    split at ha
    · rename_i here
      split at hb
      · rename_i there
        rw [here, there]
      · cases ha
        rw [here, only_of_assigns bl free as hb]
    · split at hb
      · rename_i there
        cases hb
        rw [there, only_of_assigns bl free as ha]
      · exact inj a b kind ha hb

/-- So does a run of free choices. -/
lemma after {lex : Lexicon} {ops} (inj : lex.Injective) (bl : lex.Below)
    (free : lex.ChoosesFree ops) : (lex.after ops).Injective := by
  induction ops generalizing lex with
  | nil => exact inj
  | cons op ops ih => exact ih (inj.perform bl free) (bl.perform op) (choosesFree_cons.mp free).2

/-- In the standard lexicon no two lexemes share a kind. -/
lemma standard : Injective .standard := by
  have kinds : (Lexicon.standard.listing.map Prod.snd).Nodup := by decide +kernel
  intro a b kind ha hb
  rw [← Distinct.standard.mem_listing_iff] at ha hb
  exact congrArg Prod.fst (List.inj_on_of_nodup_map kinds ha hb rfl)

end Injective

/-- In a lexicon that any run of operations makes, a kind leads back to the first of its lexemes,
byte by byte, and to none if it has none. The entries are the lexemes with their kinds, each once,
by code and then byte by byte. If the operations choose kinds that no other lexeme has at the time,
no two lexemes have one kind, and the kind of a lexeme leads back to it. -/
theorem after_inverts {start : Lexicon} (base : start = .empty ∨ start = .standard)
    (ops : List Operation) :
    let lex := start.after ops
    (∀ kind lexeme, lex.lexemeOf kind = some lexeme ↔ lex.kindOf lexeme = some kind ∧
      ∀ other, lex.kindOf other = some kind → lexeme = other ∨ Text.Precedes lexeme other) ∧
    (∀ kind, lex.lexemeOf kind = none ↔ ∀ lexeme, lex.kindOf lexeme ≠ some kind) ∧
    (∀ lexeme kind, (lexeme, kind) ∈ lex.entries ↔ lex.kindOf lexeme = some kind) ∧
    lex.entries.Nodup ∧ lex.entries.Pairwise Ahead ∧
    (start.ChoosesFree ops →
      (∀ a b kind, lex.kindOf a = some kind → lex.kindOf b = some kind → a = b) ∧
      ∀ lexeme kind, lex.kindOf lexeme = some kind → lex.lexemeOf kind = some lexeme) := by
  intro lex
  obtain ⟨dt, bl, inj⟩ : start.Distinct ∧ start.Below ∧ start.Injective := by
    rcases base with e | e
    · rw [e]
      exact ⟨.empty, .empty, .empty⟩
    · rw [e]
      exact ⟨.standard, .standard, .standard⟩
  have distinct : lex.Distinct := dt.after ops
  refine ⟨fun kind lexeme => distinct.lexemeOf_eq_some_iff,
    fun kind => distinct.lexemeOf_eq_none_iff, fun lexeme kind => distinct.mem_entries_iff,
    distinct.nodup_entries, distinct.pairwise_entries, fun free => ?_⟩
  have injective : lex.Injective := inj.after bl free
  refine ⟨injective, fun lexeme kind hk => distinct.lexemeOf_eq_some_iff.mpr ⟨hk, ?_⟩⟩
  intro other ho
  exact .inl (injective lexeme other kind hk ho)

end Lexicon

/-- A keyword moves to a high kind, and a new lexeme takes the kind that it had. -/
def moving : List Lexicon.Operation :=
  [.insertWith "let" ⟨300⟩, .insertWith "var" ⟨16⟩]

/-- Two more lexemes get the same kind. -/
def sharing : List Lexicon.Operation :=
  moving ++ [.insertWith "é" ⟨400⟩, .insertWith "z" ⟨400⟩]

/-- As long as kinds are free both of the first two lead back to their lexemes. A kind that is
shared leads back to the lexeme with the smaller bytes, not to the one that came first. -/
theorem moving_after_inverts :
    let lex := Lexicon.standard.after moving
    let shared := Lexicon.standard.after sharing
    (Lexicon.standard.ChoosesFree moving ∧ lex.lexemeOf ⟨16⟩ = some "var" ∧
      lex.lexemeOf ⟨300⟩ = some "let") ∧
    (shared.lexemeOf ⟨400⟩ = some "z" ∧ shared.kindOf "é" = some ⟨400⟩ ∧
      Text.Precedes "z" "é") ∧
    ("é", ⟨400⟩) ∈ shared.entries ∧ shared.entries.Pairwise Lexicon.Ahead := by
  intro lex shared
  -- One evaluation for all facts, since each would build the listing anew.
  have facts : (∀ entry ∈ Lexicon.standard.listing, entry.2 = ⟨300⟩ → entry.1 = "let") ∧
      (∀ entry ∈ (Lexicon.standard.perform (.insertWith "let" ⟨300⟩)).listing,
        entry.2 = ⟨16⟩ → entry.1 = "var") ∧
      lex.kindOf "var" = some ⟨16⟩ ∧ lex.kindOf "let" = some ⟨300⟩ ∧
      shared.lexemeOf ⟨400⟩ = some "z" ∧ shared.kindOf "é" = some ⟨400⟩ := by
    decide +kernel
  obtain ⟨first, second, low, high, least, other⟩ := facts
  have free : Lexicon.standard.ChoosesFree moving := by
    have distinct := Lexicon.Distinct.standard
    refine Lexicon.choosesFree_cons.mpr ⟨?_, Lexicon.choosesFree_cons.mpr ⟨?_, .nil⟩⟩
    · rintro lexeme kind e name hk
      cases e
      exact first _ (distinct.mem_listing_iff.mpr hk) rfl
    · rintro lexeme kind e name hk
      cases e
      exact second _ ((distinct.perform _).mem_listing_iff.mpr hk) rfl
  obtain ⟨-, -, -, -, -, back⟩ := Lexicon.after_inverts (.inr rfl) moving
  obtain ⟨inverse, -, listed, -, sorted, -⟩ := Lexicon.after_inverts (.inr rfl) sharing
  obtain ⟨-, back⟩ := back free
  refine ⟨⟨free, back "var" _ low, back "let" _ high⟩, ⟨least, other, ?_⟩, ?_, sorted⟩
  · exact (((inverse _ _).mp least).2 "é" other).resolve_left (by decide)
  · exact (listed "é" ⟨400⟩).mpr other

end FrontEnd
