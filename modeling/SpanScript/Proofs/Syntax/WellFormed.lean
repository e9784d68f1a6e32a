import SpanScript.Proofs.Syntax.Exact
import SpanScript.Proofs.Syntax.Spelling

/-!
# Well-formed trees

A tree that has been read is in order at every node.  What a node has to be like is said of
the node itself and of the tokens that its statement was read from; a tree is well formed
if all its nodes are like that.

The tokens of a phrase of a statement are among those of the statement.  So it is enough to
fix these, and to go through the productions: what a production adds to its parts is one
node, which stands where one of the tokens does.

* `Expr.Proper`, `Stmt.Proper`: what is asked of a node.
* `Expr.WellFormed`, `Stmt.WellFormed`: all nodes of a tree are proper.
* `Yields`: what is true of all that the phrases of some tokens stand for.
* `wellFormed_expression`, `wellFormed_statement`: from the parts of a production.
* `wellFormed_of_next`: the statements that are read.
-/

namespace SpanScript

open Grammar

/-! ## Proper nodes -/

/-- A literal is what a token of its own kind stands for. -/
def Token.Writes (t : Token) : Literal → Prop
  | .int n => t.kind = .number ∧ integerOf t.text = .int n
  | .flt x => t.kind = .float ∧ Reader.fractionLiteral t.text = .flt x
  | .str s => t.kind = .string ∧ t.text = s

/-- Brackets behind a name, one pair or more. -/
inductive Expr.NamesCell : Expr → Prop
  | name {loc place : Location} {x : String} {indices : List Expr} :
    NamesCell (.index loc (.name place x) indices)
  | index {loc : Location} {base : Expr} {indices : List Expr} : NamesCell base →
    NamesCell (.index loc base indices)

/-- The blocks that a statement is directly made of. -/
def Stmt.blocks : Stmt → List Block
  | .ifElse _ branches otherwise => branches.map Branch.block ++ otherwise.toList
  | .whileLoop _ _ body | .forLoop _ _ _ body | .define _ _ _ _ body => [body]
  | .assign .. | .assignCell .. | .evaluate _ | .returnValue .. | .breakLoops ..
  | .continueLoop _ => []

/-- The types that a statement declares something to be of. -/
def Stmt.types : Stmt → List TypeName
  | .assign _ _ _ declared => declared.toList
  | .define _ _ params returns _ => returns :: params.map Param.type
  | .assignCell .. | .evaluate _ | .ifElse .. | .whileLoop .. | .forLoop .. | .returnValue ..
  | .breakLoops .. | .continueLoop _ => []

/-- What is asked of an expression by its kind: a literal is written by a token at its place,
and no argument is given by position behind one that is given by name. -/
def Expr.Orderly (source : List Token) : Expr → Prop
  | .literal loc v => ∃ t ∈ source, t.location = loc ∧ t.Writes v
  | .call _ _ args => args.Pairwise fun a b => a.name?.isSome → b.name?.isSome
  | .tensor .. | .index .. | .name .. => True

/-- What is asked of a statement by its kind: a cell is assigned to by a name, there is a branch
to choose, and no parameter has to be given behind one that has a default. -/
def Stmt.Orderly : Stmt → Prop
  | .assignCell _ target _ => target.NamesCell
  | .ifElse _ branches _ => branches ≠ []
  | .define _ _ params _ _ => params.Pairwise fun p q => p.default.isSome → q.default.isSome
  | .assign .. | .evaluate _ | .whileLoop .. | .forLoop .. | .returnValue .. | .breakLoops ..
  | .continueLoop _ => True

/-- A node of an expression is in order that was read from tokens. -/
structure Expr.Proper (source : List Token) (e : Expr) : Prop where
  place : e.location ∈ source.map Token.location
  names : ∀ x ∈ e.names, Keyword.ofSpelling? x = none
  orderly : e.Orderly source

/-- A node of a statement is in order that was read from tokens. -/
structure Stmt.Proper (types : List TypeName) (source : List Token) (s : Stmt) : Prop where
  place : s.location ∈ source.map Token.location
  blocks : ∀ b ∈ s.blocks, b.location ∈ source.map Token.location
  names : ∀ x ∈ s.names, Keyword.ofSpelling? x = none
  types : ∀ type ∈ s.types, type ∈ types
  orderly : s.Orderly

def Expr.WellFormed (source : List Token) (e : Expr) : Prop := ∀ n, e.Node n → n.Proper source

structure Stmt.WellFormed (types : List TypeName) (source : List Token) (s : Stmt) : Prop where
  stmt : ∀ n, s.Node n → n.Proper types source
  expr : ∀ e, s.HasExpr e → e.Proper source

theorem Expr.NamesCell.namedBase {e : Expr} (h : e.NamesCell) : e.NamedBase := by
  induction h with
  | name => exact ⟨_, _, rfl⟩
  | index _ ih => exact ih

section

variable {types : List TypeName} {source : List Token}

theorem Expr.WellFormed.proper {e : Expr} (h : e.WellFormed source) : e.Proper source :=
  h e .self

theorem Expr.wellFormed_of_parts {e : Expr} (h : e.Proper source)
    (hp : ∀ e' ∈ e.parts, e'.WellFormed source) : e.WellFormed source := by
  intro n hn
  cases hn with
  | self => exact h
  | part he hn' => exact hp _ he n hn'

theorem Stmt.parts_eq_flatMap_blocks (s : Stmt) : s.parts = s.blocks.flatMap Block.statements := by
  cases s with
  | ifElse loc branches otherwise => simp [parts, blocks, List.flatMap_map]
  | _ => simp [parts, blocks]

theorem Stmt.wellFormed_of_parts {s : Stmt} (h : s.Proper types source)
    (he : ∀ e ∈ s.exprs, e.WellFormed source)
    (hb : ∀ b ∈ s.blocks, ∀ s' ∈ b.statements, s'.WellFormed types source) :
    s.WellFormed types source := by
  have hp : ∀ s' ∈ s.parts, s'.WellFormed types source := by
    intro s' hs'
    rw [s.parts_eq_flatMap_blocks] at hs'
    obtain ⟨b, hmem, hs'⟩ := List.mem_flatMap.mp hs'
    exact hb b hmem s' hs'
  refine ⟨fun n hn => ?_, fun e ⟨n, hn, e', he', hne⟩ => ?_⟩
  · cases hn with
    | self => exact h
    | part hs' hn' => exact (hp _ hs').stmt n hn'
  · cases hn with
    | self => exact he e' he' e hne
    | part hs' hn' => exact (hp _ hs').expr e ⟨n, hn', e', he', hne⟩

/-- A statement that has no blocks and says no names, from its expressions. -/
theorem Stmt.wellFormed_of_exprs {s : Stmt} (hplace : s.location ∈ source.map Token.location)
    (hblocks : s.blocks = []) (hnames : s.names = []) (htypes : s.types = [])
    (horderly : s.Orderly) (he : ∀ e ∈ s.exprs, e.WellFormed source) :
    s.WellFormed types source := by
  refine wellFormed_of_parts ⟨hplace, ?_, ?_, ?_, horderly⟩ he ?_
  · rw [hblocks]; exact nofun
  · rw [hnames]; exact nofun
  · rw [htypes]; exact nofun
  · rw [hblocks]; exact nofun

end

/-! ## Phrases of a statement -/

namespace Grammar

variable {α : Type} {source τ : List Token} {types : List TypeName}

/-- The phrases whose tokens are all among `source` stand for what `Q` is true of. -/
def Yields (source : List Token) (R : Phrase α) (Q : α → Prop) : Prop :=
  ∀ ⦃τ a⦄, R τ a → τ ⊆ source → Q a

variable {R : Phrase α} {Q : α → Prop}

theorem Yields.each {k : TokenKind} {as : List α} (hR : Yields source R Q)
    (h : IsEach k R τ as) (hτ : τ ⊆ source) : ∀ a ∈ as, Q a := by
  induction h with
  | nil => exact fun _ ha => nomatch ha
  | cons _ ha _ ih =>
    simp only [List.cons_subset, List.append_subset] at hτ
    exact List.forall_mem_cons.mpr ⟨hR ha hτ.2.1, ih hτ.2.2⟩

theorem Yields.commaList {closer : TokenKind} {as : List α} (hR : Yields source R Q)
    (h : IsCommaList closer R τ as) (hτ : τ ⊆ source) : ∀ a ∈ as, Q a := by
  cases h with
  | empty _ => exact fun _ ha => nomatch ha
  | items ha has _ =>
    simp only [List.append_subset] at hτ
    exact List.forall_mem_cons.mpr ⟨hR ha hτ.1, hR.each has hτ.2.1⟩

theorem Yields.parenthesized {R : Phrase Expr} {Q : Expr → Prop} (hR : Yields source R Q) :
    Yields source (IsParenthesized R) Q := by
  intro τ e h hτ
  cases h with
  | mk _ he _ =>
    simp only [List.cons_subset, List.append_subset] at hτ
    exact hR he hτ.2.1

theorem mem_places {t : Token} (ht : t ∈ source) : t.location ∈ source.map Token.location :=
  List.mem_map_of_mem ht

/-! ## Indices -/

theorem yields_indexGroups {E : Phrase Expr} (hE : Yields source E (Expr.WellFormed source)) :
    Yields source (IsIndexGroups E) fun gs =>
      ∀ g ∈ gs, g.1 ∈ source.map Token.location ∧ ∀ e ∈ g.2, e.WellFormed source := by
  intro τ gs h hτ
  induction h with
  | nil => exact fun _ hg => nomatch hg
  | cons _ hl _ ih =>
    simp only [List.cons_subset, List.append_subset] at hτ
    exact List.forall_mem_cons.mpr ⟨⟨mem_places hτ.1, hE.commaList hl hτ.2.1⟩, ih hτ.2.2⟩

theorem wellFormed_indexed {head : Expr} {gs : List (Location × List Expr)}
    (h : head.WellFormed source)
    (hg : ∀ g ∈ gs, g.1 ∈ source.map Token.location ∧ ∀ e ∈ g.2, e.WellFormed source) :
    (indexed head gs).WellFormed source := by
  induction gs generalizing head with
  | nil => exact h
  | cons g gs ih =>
    obtain ⟨⟨hplace, hindices⟩, hgs⟩ := List.forall_mem_cons.mp hg
    refine ih (Expr.wellFormed_of_parts ⟨hplace, nofun, trivial⟩ ?_) hgs
    exact List.forall_mem_cons.mpr ⟨h, hindices⟩

/-- Brackets behind the name of a cell, or behind a name, name a cell. -/
theorem namesCell_indexed {head : Expr} (h : head.NamesCell ∨ ∃ place x, head = .name place x)
    (g : Location × List Expr) (gs : List (Location × List Expr)) :
    (indexed head (g :: gs)).NamesCell := by
  have hcell : (Expr.index g.1 head g.2).NamesCell := by
    rcases h with h | ⟨place, x, rfl⟩
    · exact .index h
    · exact .name
  induction gs generalizing head g with
  | nil => exact hcell
  | cons g' gs ih => exact ih (.inl hcell) g' (.index hcell)

/-! ## Blocks -/

structure ProperBlock (types : List TypeName) (source : List Token) (b : Block) : Prop where
  place : b.location ∈ source.map Token.location
  statements : ∀ s ∈ b.statements, s.WellFormed types source

section

variable {joins : List Token → TokenKind → Prop} {S : Phrase Stmt}
  (hS : Yields source S (Stmt.WellFormed types source))
include hS

theorem yields_items : Yields source (IsItems joins S) fun ss =>
    ∀ s ∈ ss, s.WellFormed types source := by
  intro τ ss h hτ
  induction h with
  | close _ => exact fun _ hs => nomatch hs
  | newline _ _ ih => exact ih (List.cons_subset.mp hτ).2
  | stmt hs _ _ ih =>
    obtain ⟨hτ, hσ⟩ := List.append_subset.mp hτ
    exact List.forall_mem_cons.mpr ⟨hS hs hτ, ih hσ⟩

theorem yields_block : Yields source (IsBlock joins S) (ProperBlock types source) := by
  intro τ b h hτ
  cases h with
  | mk _ h =>
    obtain ⟨hl, hτ⟩ := List.cons_subset.mp hτ
    exact ⟨mem_places hl, yields_items hS h hτ⟩

theorem yields_guarded {E : Phrase Expr} (hE : Yields source E (Expr.WellFormed source)) :
    Yields source (IsGuarded E (IsBlock joins S)) fun b =>
      b.test.WellFormed source ∧ ProperBlock types source b.block := by
  intro τ b h hτ
  cases h with
  | mk he hb =>
    obtain ⟨hτ, hσ⟩ := List.append_subset.mp hτ
    exact ⟨hE.parenthesized he hτ, yields_block hS hb hσ⟩

end

/-- A choice, from its branches. -/
theorem wellFormed_choice {loc : Location} {branches : List Branch} {otherwise : Option Block}
    (hplace : loc ∈ source.map Token.location) (hne : branches ≠ [])
    (hbranches : ∀ b ∈ branches, b.test.WellFormed source ∧ ProperBlock types source b.block)
    (hotherwise : ∀ b ∈ otherwise, ProperBlock types source b) :
    (Stmt.ifElse loc branches otherwise).WellFormed types source := by
  have hblocks : ∀ b ∈ (Stmt.ifElse loc branches otherwise).blocks,
      ProperBlock types source b := by
    intro b hb
    rcases List.mem_append.mp hb with hb | hb
    · obtain ⟨branch, hmem, rfl⟩ := List.mem_map.mp hb
      exact (hbranches branch hmem).2
    · exact hotherwise b (Option.mem_toList.mp hb)
  exact Stmt.wellFormed_of_parts
    ⟨hplace, fun b hb => (hblocks b hb).place, nofun, nofun, hne⟩
    (List.forall_mem_map.mpr fun b hb => (hbranches b hb).1) fun b hb => (hblocks b hb).statements

/-- An assignment, from its name, its type and its value. -/
theorem wellFormed_assign {loc : Location} {x : String} {e : Expr} {declared : Option TypeName}
    (hplace : loc ∈ source.map Token.location) (hx : Keyword.ofSpelling? x = none)
    (hdeclared : ∀ type ∈ declared, type ∈ types ∧ Keyword.ofSpelling? type = none)
    (he : e.WellFormed source) : (Stmt.assign loc x e declared).WellFormed types source := by
  refine Stmt.wellFormed_of_parts ⟨hplace, nofun, ?_, fun type ht => ?_, trivial⟩
    (List.forall_mem_singleton.mpr he) nofun
  · exact List.forall_mem_cons.mpr
      ⟨hx, fun type ht => (hdeclared type (Option.mem_toList.mp ht)).2⟩
  · exact (hdeclared type (Option.mem_toList.mp ht)).1

/-- A loop while a test holds, from its test and its body. -/
theorem wellFormed_whileLoop {loc : Location} {e : Expr} {b : Block}
    (hplace : loc ∈ source.map Token.location) (he : e.WellFormed source)
    (hb : ProperBlock types source b) : (Stmt.whileLoop loc e b).WellFormed types source :=
  Stmt.wellFormed_of_parts
    ⟨hplace, List.forall_mem_singleton.mpr hb.place, nofun, nofun, trivial⟩
    (List.forall_mem_singleton.mpr he) (List.forall_mem_singleton.mpr hb.statements)

/-- A loop that counts, from its counter, its limit and its body. -/
theorem wellFormed_forLoop {loc : Location} {x : String} {e : Expr} {b : Block}
    (hplace : loc ∈ source.map Token.location) (hx : Keyword.ofSpelling? x = none)
    (he : e.WellFormed source) (hb : ProperBlock types source b) :
    (Stmt.forLoop loc x e b).WellFormed types source :=
  Stmt.wellFormed_of_parts
    ⟨hplace, List.forall_mem_singleton.mpr hb.place, List.forall_mem_singleton.mpr hx, nofun,
      trivial⟩
    (List.forall_mem_singleton.mpr he) (List.forall_mem_singleton.mpr hb.statements)

/-! ## Expressions -/

/-- No name token has the text of a reserved word. -/
def WordsApart (source : List Token) : Prop :=
  ∀ t ∈ source, t.kind = .ident → Keyword.ofSpelling? t.text = none

variable (hw : WordsApart source)
include hw

/-- An argument whose value is well formed and whose name is no reserved word. -/
theorem yields_argument {E : Phrase Expr} (hE : Yields source E (Expr.WellFormed source)) :
    Yields source (IsArgument E) fun a =>
      a.value.WellFormed source ∧ ∀ x ∈ a.name?, Keyword.ofSpelling? x = none := by
  intro τ a h hτ
  cases h with
  | keyword hk _ he =>
    simp only [List.cons_subset] at hτ
    exact ⟨hE he hτ.2.2, fun x hx => Option.some.inj hx ▸ hw _ hτ.1 hk⟩
  | positional he => exact ⟨hE he hτ, nofun⟩

theorem wellFormed_primary {fits : String → Prop} {E : Nat → Phrase Expr}
    (hE : ∀ w, Yields source (E w) (Expr.WellFormed source)) :
    Yields source (IsPrimary fits E) (Expr.WellFormed source) := by
  intro τ e h hτ
  have hliteral {t : Token} {v : Literal} (ht : t ∈ source) (hv : t.Writes v) :
      (Expr.literal t.location v).WellFormed source :=
    Expr.wellFormed_of_parts ⟨mem_places ht, nofun, t, ht, rfl, hv⟩ nofun
  cases h with
  | @number t hk _ => exact hliteral (hτ (List.mem_singleton_self t)) ⟨hk, rfl⟩
  | @float t hk => exact hliteral (hτ (List.mem_singleton_self t)) ⟨hk, rfl⟩
  | @string t hk => exact hliteral (hτ (List.mem_singleton_self t)) ⟨hk, rfl⟩
  | tensor _ hl =>
    obtain ⟨ht, hτ⟩ := List.cons_subset.mp hτ
    exact Expr.wellFormed_of_parts ⟨mem_places ht, nofun, trivial⟩ ((hE _).commaList hl hτ)
  | group h => exact (hE _).parenthesized h hτ
  | @name t hk =>
    have ht : t ∈ source := hτ (List.mem_singleton_self t)
    exact Expr.wellFormed_of_parts
      ⟨mem_places ht, List.forall_mem_singleton.mpr (hw t ht hk), trivial⟩ nofun
  | call hk _ ha ho =>
    simp only [List.cons_subset] at hτ
    obtain ⟨ht, -, hτ⟩ := hτ
    have hargs := (yields_argument hw (hE _)).commaList ha hτ
    refine Expr.wellFormed_of_parts ⟨mem_places ht, ?_, ho⟩ ?_
    · refine List.forall_mem_cons.mpr ⟨hw _ ht hk, fun x hx => ?_⟩
      obtain ⟨a, hmem, hx⟩ := List.mem_filterMap.mp hx
      exact (hargs a hmem).2 x hx
    · exact List.forall_mem_map.mpr fun a hmem => (hargs a hmem).1

theorem wellFormed_expression {fits : String → Prop} {E : Nat → Phrase Expr} {I : Phrase Expr}
    (hE : ∀ w, Yields source (E w) (Expr.WellFormed source))
    (hI : Yields source I (Expr.WellFormed source)) :
    Yields source (IsExpression (IsPrimary fits E) I) (Expr.WellFormed source) := by
  intro τ e h hτ
  cases h with
  | mk hp hg =>
    simp only [List.append_subset] at hτ
    exact wellFormed_indexed (wellFormed_primary hw hE hp hτ.1) (yields_indexGroups hI hg hτ.2)

/-! ## Statements -/

structure ProperParam (types : List TypeName) (source : List Token) (p : Param) : Prop where
  name : Keyword.ofSpelling? p.name = none
  type : Keyword.ofSpelling? p.type = none
  mem_types : p.type ∈ types
  default : ∀ e ∈ p.default, e.WellFormed source

theorem yields_param {E : Phrase Expr} (hE : Yields source E (Expr.WellFormed source)) :
    Yields source (IsParam types E) (ProperParam types source) := by
  intro τ p h hτ
  cases h with
  | plain ht htypes _ hn =>
    simp only [List.cons_subset] at hτ
    exact ⟨hw _ hτ.2.2.1 hn, hw _ hτ.1 ht, htypes, nofun⟩
  | default ht htypes _ hn _ he =>
    simp only [List.cons_subset] at hτ
    refine ⟨hw _ hτ.2.2.1 hn, hw _ hτ.1 ht, htypes, ?_⟩
    rintro _ ⟨⟩
    exact hE he hτ.2.2.2.2

/-- A function, from its parameters and its body. -/
theorem wellFormed_define {keyword name type : Token} {params : List Param} {body : Block}
    (hkeyword : keyword ∈ source) (hname : name ∈ source) (hn : name.kind = .ident)
    (hparams : ∀ p ∈ params, ProperParam types source p)
    (horder : params.Pairwise fun p q => p.default.isSome → q.default.isSome)
    (htype : type ∈ source) (ht : type.kind = .ident) (htypes : type.text ∈ types)
    (hbody : ProperBlock types source body) :
    (Stmt.define keyword.location name.text params type.text body).WellFormed types source := by
  have hnames : ∀ x ∈ params.flatMap fun p => [p.name, p.type], Keyword.ofSpelling? x = none := by
    intro x hx
    obtain ⟨p, hp, hx⟩ := List.mem_flatMap.mp hx
    rcases List.mem_pair.mp hx with rfl | rfl
    · exact (hparams p hp).name
    · exact (hparams p hp).type
  have hdefaults : ∀ e ∈ params.filterMap Param.default, e.WellFormed source := by
    intro e he
    obtain ⟨p, hp, he⟩ := List.mem_filterMap.mp he
    exact (hparams p hp).default e he
  refine Stmt.wellFormed_of_parts
    ⟨mem_places hkeyword, List.forall_mem_singleton.mpr hbody.place, ?_, ?_, horder⟩
    hdefaults (List.forall_mem_singleton.mpr hbody.statements)
  · exact List.forall_mem_cons.mpr ⟨hw _ hname hn, List.forall_mem_cons.mpr ⟨hw _ htype ht, hnames⟩⟩
  · exact List.forall_mem_cons.mpr
      ⟨htypes, List.forall_mem_map.mpr fun p hp => (hparams p hp).mem_types⟩

/-- An assignment to a cell, from the name and the indices of its target and its value. -/
theorem wellFormed_assignCell {name equals : Token} {g : Location × List Expr}
    {gs : List (Location × List Expr)} {e : Expr} (hname : name ∈ source)
    (hn : name.kind = .ident) (hequals : equals ∈ source)
    (hg : ∀ h ∈ g :: gs, h.1 ∈ source.map Token.location ∧ ∀ e ∈ h.2, e.WellFormed source)
    (he : e.WellFormed source) :
    (Stmt.assignCell equals.location (indexed (.name name.location name.text) (g :: gs))
      e).WellFormed types source := by
  have hhead : (Expr.name name.location name.text).WellFormed source :=
    Expr.wellFormed_of_parts
      ⟨mem_places hname, List.forall_mem_singleton.mpr (hw _ hname hn), trivial⟩ nofun
  have htarget := wellFormed_indexed hhead hg
  have hcell := namesCell_indexed (.inr ⟨name.location, name.text, rfl⟩) g gs
  exact Stmt.wellFormed_of_exprs (mem_places hequals) rfl rfl rfl hcell
    (List.forall_mem_cons.mpr ⟨htarget, List.forall_mem_singleton.mpr he⟩)

/-- A statement, from its parts: each production adds one node, placed at a token. -/
theorem wellFormed_statement {joins : List Token → TokenKind → Prop} {E : Nat → Phrase Expr}
    {S : Phrase Stmt} (hE : ∀ w, Yields source (E w) (Expr.WellFormed source))
    (hS : Yields source S (Stmt.WellFormed types source)) :
    Yields source (IsStatement types joins E S) (Stmt.WellFormed types source) := by
  have hB : Yields source (IsBlock joins S) (ProperBlock types source) := yields_block hS
  have hG (w : Nat) : Yields source (IsGuarded (E w) (IsBlock joins S)) _ :=
    yields_guarded hS (hE w)
  intro τ s h hτ
  cases h with
  | declaration ht htypes _ hn _ he =>
    simp only [List.cons_subset] at hτ
    obtain ⟨htype, -, hname, -, hτ⟩ := hτ
    refine wellFormed_assign (mem_places hname) (hw _ hname hn) ?_ (hE _ he hτ)
    rintro _ ⟨⟩
    exact ⟨htypes, hw _ htype ht⟩
  | assignment hn _ he =>
    simp only [List.cons_subset] at hτ
    obtain ⟨hname, -, hτ⟩ := hτ
    exact wellFormed_assign (mem_places hname) (hw _ hname hn) nofun (hE _ he hτ)
  | cellAssignment hn hg _ he =>
    simp only [List.cons_subset, List.append_subset] at hτ
    obtain ⟨hname, hτ, hequals, hσ⟩ := hτ
    exact wellFormed_assignCell hw hname hn hequals (yields_indexGroups (hE _) hg hτ) (hE _ he hσ)
  | choice _ hb hbs =>
    simp only [List.cons_subset, List.append_subset] at hτ
    obtain ⟨hkeyword, hτ, hσ⟩ := hτ
    apply wellFormed_choice (mem_places hkeyword) (List.cons_ne_nil _ _)
    · exact List.forall_mem_cons.mpr ⟨hG _ hb hτ, (hG _).each hbs hσ⟩
    · exact nofun
  | choiceElse _ hb hbs _ hc =>
    simp only [List.cons_subset, List.append_subset] at hτ
    obtain ⟨hkeyword, hτ, hσ, -, hρ⟩ := hτ
    apply wellFormed_choice (mem_places hkeyword) (List.cons_ne_nil _ _)
    · exact List.forall_mem_cons.mpr ⟨hG _ hb hτ, (hG _).each hbs hσ⟩
    · rintro _ ⟨⟩
      exact hB hc hρ
  | whileLoop _ he hb =>
    simp only [List.cons_subset, List.append_subset] at hτ
    obtain ⟨hkeyword, hτ, hσ⟩ := hτ
    exact wellFormed_whileLoop (mem_places hkeyword) ((hE _).parenthesized he hτ) (hB hb hσ)
  | forLoop _ _ hc _ he _ hb =>
    simp only [List.cons_subset, List.append_subset] at hτ
    obtain ⟨hkeyword, -, hcounter, -, hτ, -, hσ⟩ := hτ
    exact wellFormed_forLoop (mem_places hkeyword) (hw _ hcounter hc) (hE _ he hτ) (hB hb hσ)
  | define _ hn _ hps horder _ ht htypes hb =>
    simp only [List.cons_subset, List.append_subset] at hτ
    obtain ⟨hkeyword, hname, -, hτ, -, htype, hσ⟩ := hτ
    exact wellFormed_define hw hkeyword hname hn ((yields_param hw (hE _)).commaList hps hτ) horder
      htype ht htypes (hB hb hσ)
  | returnNothing _ _ _ | continueLoop _ _ _ =>
    obtain ⟨hkeyword, -⟩ := List.cons_subset.mp hτ
    exact Stmt.wellFormed_of_exprs (mem_places hkeyword) rfl rfl rfl trivial nofun
  | returnValue _ he | breakLoops _ he =>
    obtain ⟨hkeyword, hτ⟩ := List.cons_subset.mp hτ
    have hvalue := (hE _).parenthesized he hτ
    exact Stmt.wellFormed_of_exprs (mem_places hkeyword) rfl rfl rfl trivial
      (List.forall_mem_singleton.mpr hvalue)
  | evaluate he =>
    have hvalue := hE _ he hτ
    exact Stmt.wellFormed_of_exprs hvalue.proper.place rfl rfl rfl trivial
      (List.forall_mem_singleton.mpr hvalue)

/-! ## At any depth -/

theorem wellFormed_exprWithin {fits : String → Prop} : ∀ n extra : Nat,
    Yields source (ExprWithin fits n extra) (Expr.WellFormed source) := by
  intro n
  induction n with
  | zero => exact fun _ _ _ h => h.elim
  | succ n ih =>
    intro extra τ e h
    cases extra with
    | zero => exact wellFormed_expression hw ih (ih _) h
    | succ extra => exact ih extra h

theorem wellFormed_stmtWithin {fits : String → Prop} : ∀ n extra : Nat,
    Yields source (StmtWithin types fits n extra) (Stmt.WellFormed types source) := by
  intro n
  induction n with
  | zero => exact fun _ _ _ h => h.elim
  | succ n ih =>
    intro extra τ s h
    cases extra with
    | zero => exact wellFormed_statement hw (wellFormed_exprWithin hw n) (ih _) h
    | succ extra => exact ih extra h

/-- **A statement of the grammar is well formed.** -/
theorem wellFormed_of_isStmt {s : Stmt} (h : IsStmt types Joins source s) :
    s.WellFormed types source :=
  wellFormed_stmtWithin hw _ 0 (within_of_isStmt _ rfl (Nat.le_refl _) h) (List.Subset.refl _)

end Grammar

/-! ## Statements that are read -/

/-- No name token that is read has the text of a reserved word. -/
theorem Cursor.Reads.wordsApart {c d : Cursor} {τ : List Token} (h : c.Reads τ d) :
    WordsApart τ := by
  induction h with
  | nil => exact fun _ ht => nomatch ht
  | cons hn _ _ ih =>
    obtain ⟨_, l, hl, hkind, htext⟩ := exists_scan_of_next hn
    refine List.forall_mem_cons.mpr ⟨fun hk => ?_, ih⟩
    exact htext ▸ Lexeme.ofSpelling?_of_scan hl (hkind.trans hk)

/-- **Every statement that is read is well formed**, with the tokens that are taken for it
behind newlines. -/
theorem Reader.wellFormed_of_next {types : List TypeName} {nesting : Nat} {c : Cursor}
    {stmt : Stmt} {s : ReadState} (h : next types nesting (.start c) = (.ok stmt, s)) :
    ∃ ν τ, IsNewlines ν ∧ c.Reads (ν ++ τ) s.cursor ∧ stmt.WellFormed types τ := by
  obtain ⟨ν, τ, hν, hr, -, hS⟩ := next_sound h
  have hw : WordsApart τ := fun t ht => hr.wordsApart t (List.mem_append_right ν ht)
  exact ⟨ν, τ, hν, hr, wellFormed_of_isStmt hw hS⟩

end SpanScript
