import FrontEnd.Proofs.Analysis.Telling

/-!
# Sites in a program

A program with a gap between two statements of one of its blocks, at any depth (`Site`). Filling the
gap with statements gives a program. Whatever is filled in, the same steps and the same mentions
stand before and behind it (`Frames`), and there are as many uses among the steps before it as
visited occurrences among the mentions.

Main statements: `Program.exists_site`, each place between statements of a program is a site, and
`Site.exists_framed`.
-/

namespace FrontEnd

mutual

/-- Statements of a block with a gap between two of them, or inside one of them. -/
inductive Gap where
  | here (before after : List Stmt)
  | inside (before : List Stmt) (gap : StmtGap) (after : List Stmt)

/-- A statement with a gap in one of its blocks. -/
inductive StmtGap where
  | function (name : String) (parameters : List Parameter) (body : BlockGap) (isExported : Bool)
      (span : Span)
  | consequent (test : Expr) (consequent : BlockGap) (alternate : Alternate) (span : Span)
  | alternate (test : Expr) (consequent : Option Block) (alternate : AlternateGap) (span : Span)

/-- A block with a gap. -/
inductive BlockGap where
  | mk (context : ScopeId) (body : Gap) (span : Span)

/-- What follows the first branch of a conditional, with a gap in one of its blocks. -/
inductive AlternateGap where
  | otherwise (block : BlockGap)
  | consequent (test : Expr) (consequent : BlockGap) (alternate : Alternate)
  | elseIf (test : Expr) (consequent : Option Block) (alternate : AlternateGap)

end

/-- A program with a gap. -/
structure Site where
  block : BlockGap
  scopes : ScopeTree

/-! ## Filling -/

mutual

def Gap.fill : Gap → List Stmt → List Stmt
  | .here before after, ss => before ++ ss ++ after
  | .inside before gap after, ss => before ++ gap.fill ss :: after

def StmtGap.fill : StmtGap → List Stmt → Stmt
  | .function name parameters body isExported span, ss =>
    .function name parameters (body.fill ss) isExported span
  | .consequent test consequent alternate span, ss =>
    .conditional test (some (consequent.fill ss)) alternate span
  | .alternate test consequent alternate span, ss =>
    .conditional test consequent (alternate.fill ss) span

def BlockGap.fill : BlockGap → List Stmt → Block
  | .mk context body span, ss => .mk context (body.fill ss) span

def AlternateGap.fill : AlternateGap → List Stmt → Alternate
  | .otherwise block, ss => .otherwise (block.fill ss)
  | .consequent test consequent alternate, ss =>
    .elseIf test (some (consequent.fill ss)) alternate
  | .elseIf test consequent alternate, ss => .elseIf test consequent (alternate.fill ss)

end

mutual

/-- The context of the block that the gap is in. -/
def Gap.scope (context : ScopeId) : Gap → ScopeId
  | .here _ _ => context
  | .inside _ gap _ => gap.scope

def StmtGap.scope : StmtGap → ScopeId
  | .function _ _ body _ _ => body.scope
  | .consequent _ consequent _ _ => consequent.scope
  | .alternate _ _ alternate _ => alternate.scope

def BlockGap.scope : BlockGap → ScopeId
  | .mk context body _ => body.scope context

def AlternateGap.scope : AlternateGap → ScopeId
  | .otherwise block => block.scope
  | .consequent _ consequent _ => consequent.scope
  | .elseIf _ _ alternate => alternate.scope

end

/-- The context of the block itself. -/
def BlockGap.context : BlockGap → ScopeId
  | .mk context _ _ => context

/-- What is filled in does not change the context of the block. -/
lemma BlockGap.context_fill (gap : BlockGap) (ss : List Stmt) :
    (gap.fill ss).context = gap.context := by
  cases gap
  rfl

namespace Site

/-- The program with statements in the gap. -/
def fill (site : Site) (ss : List Stmt) : Program :=
  ⟨site.block.fill ss, site.scopes⟩

/-- The context of the block that the gap is in. -/
def scope (site : Site) : ScopeId :=
  site.block.scope

end Site

/-! ## Every place is a site -/

mutual

/-- The blocks of a statement, at any depth. -/
def Stmt.blocks : Stmt → List Block
  | .expression _ _ | .imports _ _ | .variables _ _ | .returns _ _ | .enumeration _ _ => []
  | .conditional _ consequent alternate _ => Block.blocksOf consequent ++ alternate.blocks
  | .function _ _ body _ _ => body.blocks

/-- The blocks of some statements. -/
def Stmt.blocksOf : List Stmt → List Block
  | [] => []
  | s :: rest => s.blocks ++ Stmt.blocksOf rest

/-- A block and the blocks inside it. -/
def Block.blocks : Block → List Block
  | .mk context body span => .mk context body span :: Stmt.blocksOf body

/-- The blocks of a branch that may be missing. -/
def Block.blocksOf : Option Block → List Block
  | none => []
  | some b => b.blocks

/-- The blocks that follow the first branch. -/
def Alternate.blocks : Alternate → List Block
  | .absent => []
  | .otherwise block => block.blocks
  | .elseIf _ consequent alternate => Block.blocksOf consequent ++ alternate.blocks

end

/-- Statements with a gap, behind another statement. -/
lemma Gap.exists_cons (s : Stmt) (gap : Gap) :
    ∃ wider : Gap, (∀ context, wider.scope context = gap.scope context) ∧
      ∀ ss, wider.fill ss = s :: gap.fill ss := by
  cases gap with
  | here before after => exact ⟨.here (s :: before) after, fun _ => rfl, fun _ => rfl⟩
  | inside before gap after =>
    exact ⟨.inside (s :: before) gap after, fun _ => rfl, fun _ => rfl⟩

section

variable {b : Block} {before ss after : List Stmt}

mutual

/-- A block inside a statement, with some of its statements taken out, is a gap in the statement. -/
lemma Stmt.exists_gap (cut : b.body = before ++ ss ++ after) :
    ∀ s : Stmt, b ∈ s.blocks → ∃ gap : StmtGap, gap.scope = b.context ∧ gap.fill ss = s ∧
      ∀ ts, .mk b.context (before ++ ts ++ after) b.span ∈ (gap.fill ts).blocks
  | .conditional test consequent alternate span, inside => by
    rcases List.mem_append.mp inside with inside | inside
    · cases consequent with
      | none => cases inside
      | some block =>
        obtain ⟨gap, scope, whole, other⟩ := Block.exists_gap cut block inside
        exact ⟨.consequent test gap alternate span, scope, by rw [StmtGap.fill, whole],
          fun ts => List.mem_append_left _ (other ts)⟩
    · obtain ⟨gap, scope, whole, other⟩ := Alternate.exists_gap cut alternate inside
      exact ⟨.alternate test consequent gap span, scope, by rw [StmtGap.fill, whole],
        fun ts => List.mem_append_right _ (other ts)⟩
  | .function name parameters body isExported span, inside => by
    obtain ⟨gap, scope, whole, other⟩ := Block.exists_gap cut body inside
    exact ⟨.function name parameters gap isExported span, scope, by rw [StmtGap.fill, whole], other⟩

/-- So it is among the statements of a block. -/
lemma Stmt.exists_gapOf (cut : b.body = before ++ ss ++ after) :
    ∀ body : List Stmt, b ∈ Stmt.blocksOf body →
      ∃ gap : Gap, (∀ context, gap.scope context = b.context) ∧ gap.fill ss = body ∧
        ∀ ts, .mk b.context (before ++ ts ++ after) b.span ∈ Stmt.blocksOf (gap.fill ts)
  | s :: rest, inside => by
    rcases List.mem_append.mp inside with inside | inside
    · obtain ⟨gap, scope, whole, other⟩ := Stmt.exists_gap cut s inside
      exact ⟨.inside [] gap rest, fun _ => scope, by rw [Gap.fill, whole, List.nil_append],
        fun ts => List.mem_append_left _ (other ts)⟩
    · obtain ⟨gap, scope, whole, other⟩ := Stmt.exists_gapOf cut rest inside
      obtain ⟨wider, same, fill⟩ := gap.exists_cons s
      refine ⟨wider, fun context => (same context).trans (scope context), by rw [fill, whole],
        fun ts => ?_⟩
      rw [fill]
      exact List.mem_append_right _ (other ts)

/-- So it is in a block, which may be the block itself. -/
lemma Block.exists_gap (cut : b.body = before ++ ss ++ after) :
    ∀ c : Block, b ∈ c.blocks → ∃ gap : BlockGap, gap.scope = b.context ∧ gap.fill ss = c ∧
      ∀ ts, .mk b.context (before ++ ts ++ after) b.span ∈ (gap.fill ts).blocks
  | .mk context body span, inside => by
    rcases List.mem_cons.mp inside with rfl | inside
    · refine ⟨.mk context (.here before after) span, rfl, ?_, fun ts => List.mem_cons_self⟩
      rw [BlockGap.fill, Gap.fill, ← cut]
      rfl
    · obtain ⟨gap, scope, whole, other⟩ := Stmt.exists_gapOf cut body inside
      exact ⟨.mk context gap span, scope context, by rw [BlockGap.fill, whole],
        fun ts => List.mem_cons_of_mem _ (other ts)⟩

/-- So it is in what follows the first branch. -/
lemma Alternate.exists_gap (cut : b.body = before ++ ss ++ after) :
    ∀ a : Alternate, b ∈ a.blocks → ∃ gap : AlternateGap, gap.scope = b.context ∧
      gap.fill ss = a ∧ ∀ ts, .mk b.context (before ++ ts ++ after) b.span ∈ (gap.fill ts).blocks
  | .otherwise block, inside => by
    obtain ⟨gap, scope, whole, other⟩ := Block.exists_gap cut block inside
    exact ⟨.otherwise gap, scope, by rw [AlternateGap.fill, whole], other⟩
  | .elseIf test consequent alternate, inside => by
    rcases List.mem_append.mp inside with inside | inside
    · cases consequent with
      | none => cases inside
      | some block =>
        obtain ⟨gap, scope, whole, other⟩ := Block.exists_gap cut block inside
        exact ⟨.consequent test gap alternate, scope, by rw [AlternateGap.fill, whole],
          fun ts => List.mem_append_left _ (other ts)⟩
    · obtain ⟨gap, scope, whole, other⟩ := Alternate.exists_gap cut alternate inside
      exact ⟨.elseIf test consequent gap, scope, by rw [AlternateGap.fill, whole],
        fun ts => List.mem_append_right _ (other ts)⟩

end

/-- Wherever some statements stand in a row in a block of a program, the program is a site with
these statements filled in. With others filled in, it has those in that place of the block. -/
lemma Program.exists_site (p : Program) (inside : b ∈ p.block.blocks)
    (cut : b.body = before ++ ss ++ after) :
    ∃ site : Site, site.scope = b.context ∧ site.scopes = p.scopes ∧ site.fill ss = p ∧
      ∀ ts, .mk b.context (before ++ ts ++ after) b.span ∈ (site.fill ts).block.blocks := by
  obtain ⟨gap, scope, whole, other⟩ := Block.exists_gap cut p.block inside
  exact ⟨⟨gap, p.scopes⟩, scope, rfl, by rw [Site.fill, whole], other⟩

end

/-! ## Counting uses -/

def Step.isUse : Step → Bool
  | use _ => true
  | enter _ | leave | declare _ | operate _ _ | importLiteral _ _ | violate _ | remark _ => false

/-- Steps use as many names as they tell visited occurrences. -/
lemma Tells.countP_isUse {s steps ms} (tl : Tells s steps ms) :
    steps.countP Step.isUse = ms.countP Mention.isVisited := by
  induction tl with
  | nil => rfl
  | append _ _ ihm ihn => rw [List.countP_append, List.countP_append, ihm, ihn]
  | @quiet _ step qt =>
    cases step with
    | operate | importLiteral | violate | remark => rfl
    | _ => cases qt
  | declare => rfl
  | @use o vs =>
    have hm : (Mention.used o).isVisited := vs
    rw [List.countP_cons_of_pos hm]
    rfl
  | @skip _ o vs =>
    have hm : ¬ (Mention.used o).isVisited := vs
    rw [List.countP_cons_of_neg hm]
    rfl
  | @block _ _ steps _ _ ih =>
    have ends : (steps ++ [Step.leave]).countP Step.isUse = steps.countP Step.isUse :=
      List.countP_append
    exact ends.trans ih

/-! ## What stands before and behind a gap -/

/-- Statements in a gap put their steps and mentions between the same others, whatever they are. -/
def Frames (tree : ScopeTree) (scope : ScopeId) (steps : List Stmt → List Step)
    (mentions : List Stmt → List Mention) : Prop :=
  ∃ first last before after, first.countP Step.isUse = before.countP Mention.isVisited ∧
    ∀ ss, steps ss = first ++ Stmt.stepsOf tree scope ss ++ last ∧
      mentions ss = before ++ Stmt.mentionsOf tree scope ss ++ after

/-- More may stand on both sides. -/
lemma Frames.around {tree scope steps mentions} (fr : Frames tree scope steps mentions)
    {wholeSteps : List Stmt → List Step} {wholeMentions : List Stmt → List Mention}
    {front : List Step} {ms : List Mention}
    (visits : front.countP Step.isUse = ms.countP Mention.isVisited) (back : List Step)
    (ns : List Mention)
    (whole : ∀ ss, wholeSteps ss = front ++ steps ss ++ back ∧
      wholeMentions ss = ms ++ mentions ss ++ ns) :
    Frames tree scope wholeSteps wholeMentions := by
  obtain ⟨first, last, before, after, count, h⟩ := fr
  refine ⟨front ++ first, last ++ back, ms ++ before, after ++ ns, ?_, fun ss => ?_⟩
  · rw [List.countP_append, List.countP_append, visits, count]
  · obtain ⟨hs, hm⟩ := whole ss
    obtain ⟨hf, hb⟩ := h ss
    rw [hs, hm, hf, hb]
    simp only [List.append_assoc, and_self]

/-- The steps of two lists of statements come one after the other. -/
lemma Stmt.stepsOf_append (tree : ScopeTree) (context : ScopeId) (ss rest : List Stmt) :
    Stmt.stepsOf tree context (ss ++ rest) =
      Stmt.stepsOf tree context ss ++ Stmt.stepsOf tree context rest := by
  induction ss with
  | nil => rfl
  | cons s ss ih => rw [List.cons_append, Stmt.stepsOf, ih, Stmt.stepsOf, List.append_assoc]

/-- So do their mentions. -/
lemma Stmt.mentionsOf_append (tree : ScopeTree) (context : ScopeId) (ss rest : List Stmt) :
    Stmt.mentionsOf tree context (ss ++ rest) =
      Stmt.mentionsOf tree context ss ++ Stmt.mentionsOf tree context rest := by
  induction ss with
  | nil => rfl
  | cons s ss ih => rw [List.cons_append, Stmt.mentionsOf, ih, Stmt.mentionsOf, List.append_assoc]

mutual

/-- Statements with a gap have the same steps and mentions around it, whatever is filled in. -/
lemma Gap.frames (tree : ScopeTree) (context : ScopeId) :
    ∀ gap : Gap, Frames tree (gap.scope context)
      (fun ss => Stmt.stepsOf tree context (gap.fill ss))
      fun ss => Stmt.mentionsOf tree context (gap.fill ss)
  | .here before after => by
    refine ⟨Stmt.stepsOf tree context before, Stmt.stepsOf tree context after,
      Stmt.mentionsOf tree context before, Stmt.mentionsOf tree context after,
      (Stmt.tellsOf tree context before).countP_isUse, fun ss => ?_⟩
    simp only [Gap.fill, Stmt.stepsOf_append, Stmt.mentionsOf_append]
    exact ⟨rfl, rfl⟩
  | .inside before gap after => by
    refine (StmtGap.frames tree context gap).around
      (Stmt.tellsOf tree context before).countP_isUse (Stmt.stepsOf tree context after)
      (Stmt.mentionsOf tree context after) fun ss => ⟨?_, ?_⟩
    · rw [Gap.fill, Stmt.stepsOf_append, Stmt.stepsOf, List.append_assoc]
    · rw [Gap.fill, Stmt.mentionsOf_append, Stmt.mentionsOf, List.append_assoc]

/-- So has a statement with a gap in it. -/
lemma StmtGap.frames (tree : ScopeTree) (context : ScopeId) :
    ∀ gap : StmtGap, Frames tree gap.scope (fun ss => (gap.fill ss).steps tree context)
      fun ss => (gap.fill ss).mentions tree context
  | .function name parameters body isExported _ => by
    have told : Tells context ((if isExported then [.remark (.exportedFunction name)] else []) ++
        [.declare (.ofFunction name)]) [.declared context (.ofFunction name)] :=
      (Tells.remarkIf _ _).append .declare
    refine (BlockGap.frames tree body (Parameter.tells body.context parameters)).around
      told.countP_isUse [] [] fun ss => ⟨?_, ?_⟩
    · rw [StmtGap.fill, Stmt.steps]
      simp only [List.append_assoc, List.singleton_append, List.append_nil]
    · rw [StmtGap.fill, Stmt.mentions, BlockGap.context_fill]
      exact (List.append_nil _).symm
  | .consequent test consequent alternate _ => by
    refine (BlockGap.frames tree consequent .nil).around
      (test.tells context false).countP_isUse (alternate.steps tree)
      (alternate.mentions tree context) fun ss => ⟨?_, ?_⟩
    · rw [StmtGap.fill, Stmt.steps, Block.stepsOf]
    · rw [StmtGap.fill, Stmt.mentions, Block.mentionsOf, List.nil_append]
  | .alternate test consequent alternate _ => by
    refine (AlternateGap.frames tree context alternate).around
      ((test.tells context false).append (Block.tellsOf tree context consequent)).countP_isUse
      [] [] fun ss => ⟨?_, ?_⟩
    · rw [StmtGap.fill, Stmt.steps]
      exact (List.append_nil _).symm
    · rw [StmtGap.fill, Stmt.mentions]
      exact (List.append_nil _).symm

/-- What comes first in a block counts to its surroundings. -/
lemma BlockGap.frames (tree : ScopeTree) :
    ∀ (gap : BlockGap) {first : List Step} {told : List Mention}, Tells gap.context first told →
      Frames tree gap.scope (fun ss => (gap.fill ss).steps tree first)
        fun ss => told ++ (gap.fill ss).mentions tree
  | .mk context body _, first, told, tl => by
    have visits : (.enter context :: first : List Step).countP Step.isUse =
        told.countP Mention.isVisited := tl.countP_isUse
    refine (Gap.frames tree context body).around visits [.leave] [] fun ss => ⟨?_, ?_⟩
    · rw [BlockGap.fill, Block.steps]
    · rw [BlockGap.fill, Block.mentions, List.append_nil]

/-- So has what follows the first branch. -/
lemma AlternateGap.frames (tree : ScopeTree) (context : ScopeId) :
    ∀ gap : AlternateGap, Frames tree gap.scope (fun ss => (gap.fill ss).steps tree)
      fun ss => (gap.fill ss).mentions tree context
  | .otherwise block => BlockGap.frames tree block .nil
  | .consequent test consequent alternate => by
    refine (BlockGap.frames tree consequent .nil).around
      (test.tells context false).countP_isUse (alternate.steps tree)
      (alternate.mentions tree context) fun ss => ⟨?_, ?_⟩
    · rw [AlternateGap.fill, Alternate.steps, Block.stepsOf]
    · rw [AlternateGap.fill, Alternate.mentions, Block.mentionsOf, List.nil_append]
  | .elseIf test consequent alternate => by
    refine (AlternateGap.frames tree context alternate).around
      ((test.tells context false).append (Block.tellsOf tree context consequent)).countP_isUse
      [] [] fun ss => ⟨?_, ?_⟩
    · rw [AlternateGap.fill, Alternate.steps]
      exact (List.append_nil _).symm
    · rw [AlternateGap.fill, Alternate.mentions]
      exact (List.append_nil _).symm

end

/-- What stands before and behind the gap of a site, whatever is filled in. -/
structure Site.Framed (site : Site) (first last : List Step) (before after : List Mention) :
    Prop where
  visits : first.countP Step.isUse = before.countP Mention.isVisited
  steps : ∀ ss, (site.fill ss).steps =
    first ++ Stmt.stepsOf site.scopes site.scope ss ++ last
  mentions : ∀ ss, (site.fill ss).mentions =
    before ++ Stmt.mentionsOf site.scopes site.scope ss ++ after

/-- A program with a gap has the same steps and mentions around it, whatever is filled in. -/
lemma Site.exists_framed (site : Site) :
    ∃ first last before after, site.Framed first last before after := by
  obtain ⟨⟨context, body, span⟩, scopes⟩ := site
  obtain ⟨first, last, before, after, visits, frame⟩ := Gap.frames scopes context body
  exact ⟨first, last, before, after, visits, fun ss => (frame ss).1, fun ss => (frame ss).2⟩

end FrontEnd
