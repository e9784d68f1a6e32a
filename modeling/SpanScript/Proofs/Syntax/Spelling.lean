import SpanScript.Proofs.Syntax.Nodes
import SpanScript.Proofs.Syntax.Statement

/-!
# Where a parse has its names from

The names in a tree that has been read are texts of name tokens, and so are the names in a
fault of the parser.  A name is written in the bytes of names, whatever else stands in the
text.

`Reader.Tells A m` says that all the answers of a reader are in `A`, and that all its
faults are spelled.  There is one lemma for each step that readers are made of and one for
each production.

* `isName_of_scan`, `ofSpelling?_of_scan`: the texts of name tokens.
* `Material.named`: the trees whose names are names.
* `next_spelled`: what comes of a text is spelled.
-/

namespace SpanScript

open Alphabet

/-! ## Names -/

/-- A text that is written in the bytes of names. -/
def IsName (x : String) : Prop := ∃ bs : Bytes, (∀ b ∈ bs, isNamePart b = true) ∧ x = ascii bs

namespace Lexeme

theorem isName_word (bs : Bytes) : IsName (word bs).text :=
  ⟨_, fun _ hb => List.mem_takeWhile_imp hb, rfl⟩

/-- A name token is a word. -/
theorem exists_word_of_scan {bs : Bytes} {l : Lexeme} (h : scan bs = .ok l) (hk : l.kind = .ident) :
    ∃ cs, l = word cs := by
  cases bs with
  | nil => cases h; cases hk
  | cons b rest =>
    rw [scan] at h
    split at h
    · cases h; cases hk
    split at h
    · next hs =>
      cases h
      exact absurd (hk ▸ hs) (symbol?_ne (.inr (.inr (.inl rfl))) b)
    split at h
    · obtain ⟨_, _, _, -, -, rfl⟩ := quoted_eq_ok h
      cases hk
    split at h
    · split at h
      · cases h
      · cases h
        exact absurd hk (number_kind_ne (by decide) (by decide) _ _)
    split at h
    · cases h
      exact absurd hk (number_kind_ne (by decide) (by decide) _ _)
    split at h
    · cases h
      exact ⟨_, rfl⟩
    · cases h

/-- A name token is written in the bytes of names. -/
theorem isName_of_scan {bs : Bytes} {l : Lexeme} (h : scan bs = .ok l) (hk : l.kind = .ident) :
    IsName l.text := by
  obtain ⟨cs, rfl⟩ := exists_word_of_scan h hk
  exact isName_word cs

/-- A name token is no reserved word. -/
theorem ofSpelling?_of_scan {bs : Bytes} {l : Lexeme} (h : scan bs = .ok l)
    (hk : l.kind = .ident) : Keyword.ofSpelling? l.text = none := by
  obtain ⟨cs, rfl⟩ := exists_word_of_scan h hk
  unfold word at hk
  dsimp only at hk
  split at hk
  · cases hk
  · next h => exact h

theorem quoted_ne_unexpected {quote b : UInt8} {bs : Bytes} {e : LexStop}
    (h : quoted quote bs = .error e) : e.problem ≠ .unexpected b := by
  unfold quoted at h
  split at h
  · split at h <;> cases h
    exact LexProblem.noConfusion
  · cases h
    exact LexProblem.noConfusion
  · cases h
    exact LexProblem.noConfusion

/-- A newline is a token, so it is never unexpected. -/
theorem scan_ne_unexpected_newline {bs : Bytes} {e : LexStop} (h : scan bs = .error e) :
    e.problem ≠ .unexpected Bytes.newline := by
  cases bs with
  | nil => cases h
  | cons b rest =>
    rw [scan] at h
    split at h
    · cases h
    next hsep =>
    split at h
    · cases h
    split at h
    · exact quoted_ne_unexpected h
    split at h
    · split at h <;> cases h
      exact LexProblem.noConfusion
    split at h
    · cases h
    split at h
    · cases h
    · cases h
      rintro hb
      injection hb with hb
      exact hsep (hb ▸ rfl)

end Lexeme

/-- The name of a name token is a name. -/
def Token.Spelled (t : Token) : Prop := t.kind = .ident → IsName t.text

theorem Cursor.exists_scan_of_next {c d : Cursor} {t : Token} (h : c.next = .ok (t, d)) :
    ∃ bs l, Lexeme.scan bs = .ok l ∧ l.kind = t.kind ∧ l.text = t.text := by
  unfold next at h
  cases hl : Lexeme.scan (c.move (gap c.rest)).rest with
  | error e => simp [hl] at h
  | ok l =>
    simp only [hl, Except.ok.injEq, Prod.mk.injEq] at h
    obtain ⟨rfl, -⟩ := h
    exact ⟨_, l, hl, rfl, rfl⟩

/-- The token at a cursor is spelled. -/
theorem Cursor.spelled_of_next {c d : Cursor} {t : Token} (h : c.next = .ok (t, d)) :
    t.Spelled := by
  obtain ⟨_, l, hl, hkind, htext⟩ := exists_scan_of_next h
  exact fun hk => htext ▸ Lexeme.isName_of_scan hl (hkind.trans hk)

theorem Cursor.problem_of_next {c : Cursor} {x : LexFault} (h : c.next = .error x) :
    x.problem ≠ .unexpected Bytes.newline := by
  unfold next at h
  cases hl : Lexeme.scan (c.move (gap c.rest)).rest with
  | ok l => simp [hl] at h
  | error e =>
    simp only [hl, Except.error.injEq] at h
    subst h
    exact Lexeme.scan_ne_unexpected_newline hl

/-- A fault tells names, and no newline as a byte that is unexpected. -/
def ParseFault.Spelled : ParseFault → Prop
  | .located (.lexical problem) _ => problem ≠ .unexpected Bytes.newline
  | .located (.unknownType x) _ | .located (.parameterOrder x) _ => IsName x
  | _ => True

/-- The trees whose names are of a sort. -/
def Material.named (p : String → Prop) : Material where
  expr e := ∀ n, e.Node n → ∀ x ∈ n.names, p x
  stmt s := (∀ n, s.Node n → ∀ x ∈ n.names, p x) ∧ ∀ e, s.HasExpr e → ∀ x ∈ e.names, p x
  expr_part h hp := fun n hn => h n (.part hp hn)
  stmt_expr h he := fun n hn => h.2 n ⟨_, .self, _, he, hn⟩
  stmt_part h hp := ⟨fun n hn => h.1 n (.part hp hn),
    fun e ⟨n, hn, he⟩ => h.2 e ⟨n, .part hp hn, he⟩⟩

namespace Material

variable {p : String → Prop}

theorem expr_named {e : Expr} (hn : ∀ x ∈ e.names, p x)
    (hp : ∀ e' ∈ e.parts, (named p).expr e') : (named p).expr e := by
  intro n h
  cases h with
  | self => exact hn
  | part he hn' => exact hp _ he n hn'

theorem stmt_named {s : Stmt} (hn : ∀ x ∈ s.names, p x) (he : ∀ e ∈ s.exprs, (named p).expr e)
    (hp : ∀ s' ∈ s.parts, (named p).stmt s') : (named p).stmt s := by
  refine ⟨fun n h => ?_, fun e ⟨n, h, e', he', hn'⟩ => ?_⟩
  · cases h with
    | self => exact hn
    | part hs h => exact (hp _ hs).1 n h
  · cases h with
    | self => exact he e' he' e hn'
    | part hs h => exact (hp _ hs).2 e ⟨n, h, e', he', hn'⟩

/-- What a name of a material is of. -/
theorem of_name {x : String} (h : (named p).Name x) : p x := by
  rcases h with ⟨s, hs, hx⟩ | ⟨e, he, hx⟩
  · exact hs.1 s .self x hx
  · exact he e .self x hx

end Material

namespace Reader

variable {α β : Type} {A : α → Prop} {B : β → Prop}

/-- All answers of the reader are in `A`, and all its faults are spelled. -/
def Tells (A : α → Prop) (m : Reader α) : Prop :=
  ∀ s, match m.run.run s with
    | (.ok a, _) => A a
    | (.error x, _) => x.Spelled

/-! ## Steps -/

theorem tells_pure {a : α} (h : A a) : Tells A (pure a) := fun _ => h

theorem tells_throw {x : ParseFault} (h : x.Spelled) : Tells A (throw x) := fun _ => h

theorem tells_fail {problem : SyntaxProblem} {loc : Location}
    (h : (ParseFault.located problem loc).Spelled) : Tells A (fail problem loc) :=
  tells_throw h

theorem Tells.bind {m : Reader α} {k : α → Reader β} (h : Tells A m)
    (h' : ∀ {a}, A a → Tells B (k a)) : Tells B (m >>= k) := by
  intro s
  have hm := h s
  rw [run_bind]
  generalize m.run.run s = r at hm
  obtain ⟨x | a, s₁⟩ := r
  · exact hm
  · exact h' hm s₁

/-- What is answered last is made of what has been read. -/
theorem Tells.map {m : Reader α} {f : α → β} (h : Tells A m) (h' : ∀ {a}, A a → B (f a)) :
    Tells B (m >>= fun a => pure (f a)) :=
  h.bind fun ha => tells_pure (h' ha)

theorem tells_get {k : ReadState → Reader α} (h : ∀ s, Tells A (k s)) :
    Tells A (get >>= k) := fun s => h s s

theorem tells_ite {c : Prop} [Decidable c] {m n : Reader α} (h : c → Tells A m)
    (h' : ¬ c → Tells A n) : Tells A (if c then m else n) := by
  split
  · exact h ‹c›
  · exact h' ‹¬ c›

theorem tells_look (c : Cursor) : Tells (fun x => x.1.Spelled) (look c) := by
  intro s
  unfold look
  cases hn : c.next with
  | ok x => exact Cursor.spelled_of_next hn
  | error x => exact Cursor.problem_of_next hn

theorem tells_peek : Tells Token.Spelled peek :=
  tells_get fun _ => (tells_look _).map id

theorem tells_peekSecond : Tells Token.Spelled peekSecond := by
  refine tells_get fun _ => (tells_look _).bind fun ht => ?_
  exact tells_ite (fun _ => tells_pure ht) fun _ => (tells_look _).map id

theorem tells_sees (k : TokenKind) : Tells (fun _ => True) (sees k) :=
  tells_peek.map fun _ => trivial

theorem tells_take : Tells Token.Spelled take :=
  tells_get fun _ => (tells_look _).bind fun ht _ => ht

theorem tells_accept (k : TokenKind) : Tells (fun _ => True) (accept k) :=
  (tells_sees k).bind fun _ => tells_ite (fun _ => tells_take.map fun _ => trivial)
    fun _ => tells_pure trivial

theorem tells_expect (k : TokenKind) : Tells Token.Spelled (expect k) :=
  tells_peek.bind fun _ => tells_ite (fun _ => tells_take) fun _ => tells_fail trivial

/-- A token that has to be a name. -/
theorem tells_name : Tells (fun t => IsName t.text) (expect .ident) := by
  intro s
  have ht := tells_expect .ident s
  cases hx : (expect .ident).run.run s with
  | mk r s' =>
    rw [hx] at ht
    cases r with
    | error x => exact ht
    | ok t => exact ht (gives_expect (by decide) hx).1

theorem tells_typeName (types : List TypeName) : Tells IsName (typeName types) :=
  tells_name.bind fun ht => tells_ite (fun _ => tells_pure ht) fun _ => tells_fail ht

/-! ## Repetitions -/

theorem tells_many {m : Reader (Option α)} (h : Tells (fun o => ∀ a ∈ o, A a) m) :
    Tells (fun as => ∀ a ∈ as, A a) (many m) := by
  have within : ∀ fuel, Tells (fun as => ∀ a ∈ as, A a) (repeatWithin m fuel) := by
    intro fuel
    induction fuel with
    | zero => exact tells_pure nofun
    | succ fuel ih =>
      refine h.bind fun {o} ho => ?_
      cases o with
      | none => exact tells_pure nofun
      | some a => exact ih.map fun has => List.forall_mem_cons.mpr ⟨ho a rfl, has⟩
  exact tells_get fun s => within s.bound

theorem tells_commaList (k : TokenKind) {m : Reader α} (h : Tells A m) :
    Tells (fun as => ∀ a ∈ as, A a) (commaList k m) := by
  refine (tells_accept k).bind fun _ => tells_ite (fun _ => tells_pure nofun)
    fun _ => h.bind fun ha => (tells_many (A := A) ?_).bind fun has => ?_
  · refine (tells_accept _).bind fun _ => tells_ite (fun _ => ?_)
      fun _ => tells_pure nofun
    exact h.map fun {a} ha b hb => Option.some.inj hb ▸ ha
  · exact (tells_expect k).map fun _ => List.forall_mem_cons.mpr ⟨ha, has⟩

theorem tells_dropNewlines : Tells (fun _ => True) dropNewlines := by
  refine (tells_many (A := fun _ => True) ?_).map fun _ => trivial
  exact (tells_accept _).bind fun _ => tells_ite (fun _ => tells_pure fun _ _ => trivial)
    fun _ => tells_pure fun _ _ => trivial

/-! ## Expressions -/

/-- The reader reads expressions whose names are names. -/
abbrev TellsExpr (m : Reader Expr) : Prop := Tells (Material.named IsName).expr m

abbrev TellsStmt (m : Reader Stmt) : Prop := Tells (Material.named IsName).stmt m

structure SpelledArgument (a : Argument) : Prop where
  value : (Material.named IsName).expr a.value
  name : ∀ x ∈ a.name?, IsName x

theorem expr_literal (loc : Location) (v : Literal) :
    (Material.named IsName).expr (.literal loc v) :=
  Material.expr_named nofun nofun

theorem expr_name {x : String} (loc : Location) (h : IsName x) :
    (Material.named IsName).expr (.name loc x) :=
  Material.expr_named (List.forall_mem_singleton.mpr h) nofun

theorem expr_call {x : String} {args : List Argument} (loc : Location) (h : IsName x)
    (ha : ∀ a ∈ args, SpelledArgument a) : (Material.named IsName).expr (.call loc x args) := by
  refine Material.expr_named (List.forall_mem_cons.mpr ⟨h, fun y hy => ?_⟩) fun e he => ?_
  · obtain ⟨a, hmem, hy⟩ := List.mem_filterMap.mp hy
    exact (ha a hmem).name y hy
  · obtain ⟨a, hmem, rfl⟩ := List.mem_map.mp he
    exact (ha a hmem).value

theorem tells_integerLiteral (text : String) : Tells (fun _ => True) (integerLiteral text) := by
  by_cases h : Grammar.FitsDigits text
  · rw [integerLiteral_of_fits h]
    exact tells_pure trivial
  · rw [integerLiteral_of_not_fits h]
    exact tells_throw trivial

theorem tells_parenthesized {m : Reader Expr} (h : TellsExpr m) :
    TellsExpr (parenthesized m) :=
  (tells_expect _).bind fun _ => h.bind fun he => (tells_expect _).map fun _ => he

theorem tells_keywordComes : Tells (fun _ => True) keywordComes :=
  (tells_sees _).bind fun _ => tells_ite (fun _ => tells_peekSecond.map fun _ => trivial)
    fun _ => tells_pure trivial

theorem tells_argument {m : Reader Expr} (h : TellsExpr m) :
    Tells SpelledArgument (argument m) := by
  rw [argument]
  refine tells_keywordComes.bind fun _ => tells_ite (fun _ => ?_) fun _ => ?_
  · refine tells_name.bind fun hx => (tells_expect _).bind fun _ => h.map fun he => ?_
    exact ⟨he, fun y hy => Option.some.inj hy ▸ hx⟩
  · exact h.map fun he => ⟨he, nofun⟩

theorem tells_primary {expr : Nat → Reader Expr} (h : ∀ n, TellsExpr (expr n)) :
    TellsExpr (primary expr) := by
  refine tells_peek.bind fun {t} ht => ?_
  obtain ⟨kind, text, loc, _, _⟩ := t
  cases kind with
  | number =>
    exact tells_take.bind fun _ => (tells_integerLiteral _).map fun _ => expr_literal loc _
  | float => exact tells_take.map fun _ => expr_literal loc _
  | string => exact tells_take.map fun _ => expr_literal loc _
  | lbracket =>
    refine tells_take.bind fun _ => (tells_commaList _ (h _)).map fun hs => ?_
    exact Material.expr_named nofun hs
  | lparen => exact tells_parenthesized (h _)
  | ident =>
    have hx : IsName text := ht rfl
    refine tells_take.bind fun _ => (tells_accept _).bind fun _ => tells_ite (fun _ => ?_)
      fun _ => tells_pure (expr_name loc hx)
    refine (tells_commaList _ (tells_argument (h _))).bind fun {args} ha => ?_
    cases misplaced? false args with
    | some e => exact tells_fail trivial
    | none => exact tells_pure (expr_call loc hx ha)
  | _ => exact tells_fail trivial

theorem tells_indexGroup {m : Reader Expr} (h : TellsExpr m) :
    Tells (fun o => ∀ g ∈ o, ∀ i ∈ g.2, (Material.named IsName).expr i) (indexGroup m) := by
  refine (tells_sees _).bind fun _ => tells_ite (fun _ => ?_)
    fun _ => tells_pure nofun
  refine (tells_expect _).bind fun _ => (tells_commaList _ h).map fun hs => ?_
  exact fun g hg => Option.some.inj hg ▸ hs

theorem expr_indices {e : Expr} {gs : List (Location × List Expr)}
    (he : (Material.named IsName).expr e)
    (hg : ∀ g ∈ gs, ∀ i ∈ g.2, (Material.named IsName).expr i) :
    (Material.named IsName).expr
      (gs.foldl (fun base (loc, indices) => .index loc base indices) e) := by
  induction gs generalizing e with
  | nil => exact he
  | cons g gs ih =>
    obtain ⟨hi, hg⟩ := List.forall_mem_cons.mp hg
    exact ih (Material.expr_named nofun (List.forall_mem_cons.mpr ⟨he, hi⟩)) hg

/-- **The names in an expression** are name tokens. -/
theorem tells_expression : ∀ n extra : Nat, TellsExpr (expression n extra) := by
  intro n
  induction n with
  | zero => exact fun _ => tells_throw trivial
  | succ n ih =>
    intro extra
    cases extra with
    | zero =>
      refine (tells_primary (ih ·)).bind fun he => ?_
      exact (tells_many (tells_indexGroup (ih _))).map fun hg => expr_indices he hg
    | succ extra => exact ih extra

/-! ## Statements -/

theorem tells_bracketsThenEquals : ∀ (fuel depth : Nat) (c : Cursor),
    Tells (fun _ => True) (bracketsThenEquals fuel depth c) := by
  intro fuel
  induction fuel with
  | zero => exact fun _ _ => tells_pure trivial
  | succ fuel ih =>
    intro depth c
    cases depth with
    | zero =>
      rw [bracketsThenEquals]
      refine (tells_look c).bind fun {x} _ => ?_
      dsimp only
      split
      · exact ih _ _
      · exact tells_pure trivial
      · exact tells_pure trivial
    | succ depth =>
      rw [bracketsThenEquals]
      refine (tells_look c).bind fun {x} _ => ?_
      dsimp only
      split
      · exact tells_pure trivial
      · exact ih _ _
      · exact ih _ _
      · exact ih _ _

theorem tells_cellFollows : Tells (fun _ => True) cellFollows :=
  tells_get fun _ => (tells_look _).bind fun _ => tells_bracketsThenEquals _ _ _

structure SpelledParam (p : Param) : Prop where
  name : IsName p.name
  type : IsName p.type
  default : ∀ e ∈ p.default, (Material.named IsName).expr e

def SpelledBlock (b : Block) : Prop := ∀ s ∈ b.statements, (Material.named IsName).stmt s

structure SpelledBranch (b : Branch) : Prop where
  test : (Material.named IsName).expr b.test
  block : SpelledBlock b.block

theorem stmt_assign {x : String} {value : Expr} {declared : Option TypeName} (loc : Location)
    (hx : IsName x) (he : (Material.named IsName).expr value) (hd : ∀ t ∈ declared, IsName t) :
    (Material.named IsName).stmt (.assign loc x value declared) :=
  Material.stmt_named
    (List.forall_mem_cons.mpr ⟨hx, fun t ht => hd t (Option.mem_toList.mp ht)⟩)
    (List.forall_mem_singleton.mpr he) nofun

theorem tells_assignment {m : Reader Expr} (h : TellsExpr m) {declared : Option TypeName}
    (hd : ∀ t ∈ declared, IsName t) : TellsStmt (assignment m declared) :=
  tells_name.bind fun hx => (tells_expect _).bind fun _ => h.map fun he =>
    stmt_assign _ hx he hd

theorem tells_declaration {m : Reader Expr} (h : TellsExpr m) (types : List TypeName) :
    TellsStmt (declaration types m) :=
  (tells_typeName types).bind fun ht => (tells_expect _).bind fun _ =>
    tells_assignment h fun _ h => Option.some.inj h ▸ ht

theorem tells_cellAssignment {m : Reader Expr} (h : TellsExpr m) :
    TellsStmt (cellAssignment m) := by
  refine h.bind fun {e} he => ?_
  cases e with
  | index loc base indices =>
    refine (tells_expect _).bind fun _ => h.map fun hv => ?_
    exact Material.stmt_named nofun
      (List.forall_mem_cons.mpr ⟨he, List.forall_mem_singleton.mpr hv⟩) nofun
  | _ => exact tells_peek.bind fun _ => tells_fail trivial

theorem tells_parameter {m : Reader Expr} (h : TellsExpr m) (types : List TypeName) :
    Tells SpelledParam (parameter types m) := by
  refine (tells_typeName types).bind fun ht => (tells_expect _).bind fun _ => ?_
  refine tells_name.bind fun hx => (tells_accept _).bind fun _ => tells_ite (fun _ => ?_)
    fun _ => tells_pure ⟨hx, ht, nofun⟩
  exact h.map fun he => ⟨hx, ht, fun _ h => Option.some.inj h ▸ he⟩

theorem undefaulted?_mem {p : Param} : ∀ {seen : Bool} {ps : List Param},
    undefaulted? seen ps = some p → p ∈ ps := by
  intro seen ps
  induction ps generalizing seen with
  | nil => exact fun h => nomatch h
  | cons q ps ih =>
    intro h
    rw [undefaulted?] at h
    split at h
    · exact List.mem_cons_of_mem _ (ih h)
    split at h
    · exact Option.some.inj h ▸ List.mem_cons_self
    · exact List.mem_cons_of_mem _ (ih h)

theorem tells_block {m : Reader Stmt} (h : TellsStmt m) : Tells SpelledBlock (block m) := by
  refine tells_peek.bind fun _ => tells_ite (fun _ => tells_fail trivial) fun _ => ?_
  refine (tells_expect _).bind fun _ => (tells_many ?_).map fun hs => hs
  refine tells_dropNewlines.bind fun _ => (tells_accept _).bind fun _ => ?_
  refine tells_ite (fun _ => tells_pure nofun) fun _ => tells_peek.bind fun _ => ?_
  refine tells_ite (fun _ => tells_fail trivial) fun _ => h.map fun hs => ?_
  exact fun _ h => Option.some.inj h ▸ hs

theorem stmt_define {x : String} {ps : List Param} {returns : TypeName} {b : Block}
    (loc : Location) (hx : IsName x) (hp : ∀ p ∈ ps, SpelledParam p) (hr : IsName returns)
    (hb : SpelledBlock b) : (Material.named IsName).stmt (.define loc x ps returns b) := by
  refine Material.stmt_named ?_ (fun e he => ?_) hb
  · refine List.forall_mem_cons.mpr ⟨hx, List.forall_mem_cons.mpr ⟨hr, fun _ hy => ?_⟩⟩
    obtain ⟨p, hmem, hy⟩ := List.mem_flatMap.mp hy
    rcases List.mem_cons.mp hy with rfl | hy
    · exact (hp p hmem).name
    · exact List.mem_singleton.mp hy ▸ (hp p hmem).type
  · obtain ⟨p, hmem, he⟩ := List.mem_filterMap.mp he
    exact (hp p hmem).default e he

theorem tells_definition {m : Reader Expr} {n : Reader Stmt} (h : TellsExpr m)
    (h' : TellsStmt n) (types : List TypeName) : TellsStmt (definition types m n) := by
  refine (tells_expect _).bind fun _ => tells_name.bind fun hx => (tells_expect _).bind fun _ => ?_
  refine (tells_commaList _ (tells_parameter h types)).bind fun {ps} hp => ?_
  cases hu : undefaulted? false ps with
  | some p => exact tells_fail (hp p (undefaulted?_mem hu)).name
  | none =>
    refine (tells_expect _).bind fun _ => (tells_typeName types).bind fun hr => ?_
    exact (tells_block h').map fun hb => stmt_define _ hx hp hr hb

theorem tells_guarded {m : Reader Expr} {n : Reader Stmt} (h : TellsExpr m)
    (h' : TellsStmt n) : Tells SpelledBranch (guarded m n) :=
  (tells_parenthesized h).bind fun he => (tells_block h').map fun hb => ⟨he, hb⟩

theorem stmt_ifElse {bs : List Branch} {o : Option Block} (loc : Location)
    (hb : ∀ b ∈ bs, SpelledBranch b) (ho : ∀ b ∈ o, SpelledBlock b) :
    (Material.named IsName).stmt (.ifElse loc bs o) := by
  refine Material.stmt_named nofun (fun e he => ?_) fun s hs => ?_
  · obtain ⟨b, hmem, rfl⟩ := List.mem_map.mp he
    exact (hb b hmem).test
  · rcases List.mem_append.mp hs with hs | hs
    · obtain ⟨b, hmem, hs⟩ := List.mem_flatMap.mp hs
      exact (hb b hmem).block s hs
    · obtain ⟨b, hmem, hs⟩ := List.mem_flatMap.mp hs
      exact ho b (Option.mem_toList.mp hmem) s hs

theorem tells_choice {m : Reader Expr} {n : Reader Stmt} (h : TellsExpr m)
    (h' : TellsStmt n) : TellsStmt (choice m n) := by
  refine (tells_expect _).bind fun _ => (tells_guarded h h').bind fun hb => ?_
  refine (tells_many (A := SpelledBranch) ?_).bind fun hbs => ?_
  · refine (tells_accept _).bind fun _ => tells_ite (fun _ => ?_)
      fun _ => tells_pure nofun
    exact (tells_guarded h h').map fun hb _ h => Option.some.inj h ▸ hb
  have hall := List.forall_mem_cons.mpr ⟨hb, hbs⟩
  refine (tells_accept _).bind fun _ => tells_ite (fun _ => ?_)
    fun _ => tells_pure (stmt_ifElse _ hall nofun)
  exact (tells_block h').map fun ho => stmt_ifElse _ hall fun _ h => Option.some.inj h ▸ ho

theorem tells_whileLoop {m : Reader Expr} {n : Reader Stmt} (h : TellsExpr m)
    (h' : TellsStmt n) : TellsStmt (whileLoop m n) := by
  refine (tells_expect _).bind fun _ => (tells_parenthesized h).bind fun he => ?_
  refine (tells_block h').map fun hb => ?_
  exact Material.stmt_named nofun (List.forall_mem_singleton.mpr he) hb

theorem tells_countLoop {m : Reader Expr} {n : Reader Stmt} (h : TellsExpr m)
    (h' : TellsStmt n) : TellsStmt (countLoop m n) := by
  refine (tells_expect _).bind fun _ => (tells_expect _).bind fun _ => ?_
  refine tells_name.bind fun hx => (tells_expect _).bind fun _ => h.bind fun he => ?_
  refine (tells_expect _).bind fun _ => (tells_block h').map fun hb => ?_
  exact Material.stmt_named (List.forall_mem_singleton.mpr hx)
    (List.forall_mem_singleton.mpr he) hb

theorem tells_optionalValue {m : Reader Expr} (h : TellsExpr m) :
    Tells (fun o => ∀ e ∈ o, (Material.named IsName).expr e) (optionalValue m) := by
  refine (tells_sees _).bind fun _ => tells_ite (fun _ => tells_pure nofun) fun _ => ?_
  exact h.map fun he _ h => Option.some.inj h ▸ he

theorem tells_returnStatement {m : Reader Expr} (h : TellsExpr m) :
    TellsStmt (returnStatement m) := by
  rw [returnStatement]
  refine (tells_expect _).bind fun _ => (tells_expect _).bind fun _ => ?_
  refine (tells_optionalValue h).bind fun ho => (tells_expect _).map fun _ => ?_
  exact Material.stmt_named (List.forall_mem_nil _) (fun e h => ho e (Option.mem_toList.mp h))
    (List.forall_mem_nil _)

theorem tells_breakStatement {m : Reader Expr} (h : TellsExpr m) :
    TellsStmt (breakStatement m) := by
  refine (tells_expect _).bind fun _ => (tells_parenthesized h).map fun he => ?_
  exact Material.stmt_named nofun (List.forall_mem_singleton.mpr he) nofun

theorem tells_continueStatement : TellsStmt continueStatement := by
  refine (tells_expect _).bind fun _ => (tells_expect _).bind fun _ => ?_
  refine (tells_expect _).map fun _ => ?_
  exact Material.stmt_named nofun nofun nofun

theorem tells_bareExpression {m : Reader Expr} (h : TellsExpr m) :
    TellsStmt (bareExpression m) := by
  refine h.map fun he => ?_
  exact Material.stmt_named nofun (List.forall_mem_singleton.mpr he) nofun

theorem tells_named {expr : Nat → Reader Expr} (h : ∀ n, TellsExpr (expr n))
    (types : List TypeName) (t : Token) : TellsStmt (named types expr t) := by
  refine tells_peekSecond.bind fun _ => ?_
  refine tells_ite (fun _ => tells_declaration (h _) types) fun _ => ?_
  refine tells_ite (fun _ => tells_assignment (h _) nofun) fun _ => ?_
  refine tells_ite (fun _ => ?_) fun _ => tells_bareExpression (h _)
  refine tells_cellFollows.bind fun _ => tells_ite (fun _ => ?_) fun _ => ?_
  · exact tells_cellAssignment (h _)
  · exact tells_bareExpression (h _)

/-- **The names in a statement** are name tokens. -/
theorem tells_statement (types : List TypeName) : ∀ n extra : Nat,
    TellsStmt (statement types n extra) := by
  intro n
  induction n with
  | zero => exact fun _ => tells_throw trivial
  | succ n ih =>
    intro extra
    cases extra with
    | succ extra => exact ih extra
    | zero =>
      have h := tells_expression n
      rw [statement]
      refine tells_peek.bind fun {t} _ => ?_
      split
      · exact tells_definition (h _) (ih _) types
      · exact tells_choice (h _) (ih _)
      · exact tells_whileLoop (h _) (ih _)
      · exact tells_countLoop (h _) (ih _)
      · exact tells_returnStatement (h _)
      · exact tells_breakStatement (h _)
      · exact tells_continueStatement
      · exact tells_named h types t
      · exact tells_bareExpression (h _)

/-- **What comes of a text is spelled**: the names of the statement that is read are names,
and so are those in the fault if there is none. -/
theorem next_spelled {types : List TypeName} {nesting : Nat} {s s' : ReadState} :
    (∀ {stmt}, next types nesting s = (.ok stmt, s') → (Material.named IsName).stmt stmt) ∧
      ∀ {x}, next types nesting s = (.error x, s') → x.Spelled := by
  have h : TellsStmt (oneStatement types nesting) :=
    tells_dropNewlines.bind fun _ => tells_peek.bind fun _ =>
      tells_ite (fun _ => tells_fail trivial) fun _ => tells_statement types nesting 0
  have hs := h s
  have hn : next types nesting s = (oneStatement types nesting).run.run s := rfl
  rw [hn]
  generalize (oneStatement types nesting).run.run s = r at hs
  refine ⟨?_, ?_⟩
  · rintro stmt rfl
    exact hs
  · rintro x rfl
    exact hs

end Reader

end SpanScript
