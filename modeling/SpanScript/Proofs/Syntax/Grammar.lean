import SpanScript.Syntax.Statement

/-!
# The grammar of statements

Which token sequences are statements, and which trees they stand for.  A
`Phrase α` relates a token sequence to what it stands for.  Each production is
stated once, over the phrases of its parts: the parts of an expression or of a
statement that are expressions again are `expr w`, where `w` is the number of
levels that lie between, so that the same productions make two grammars.

* `IsExpr`, `IsStmt`: the grammar itself, which nests as deep as it likes.
* `ExprWithin`, `StmtWithin`: what can be read within a number of levels.

In a block, statements follow each other without a mark between them, and then
two of them may also be read as one: `x [1]` is a name and a tensor, or one
indexing.  `joins` says which neighbours a grammar does not tell apart in this
way; in the plain grammar there are none (`Never`), and `Joins` are those that a
reader takes together.
-/

namespace SpanScript

/-- What token sequences stand for. -/
abbrev Phrase (α : Type) := List Token → α → Prop

namespace Grammar

open Reader

variable {α : Type}

/-! ## Expressions -/

/-- Any number of items, each behind a token of a kind. -/
inductive IsEach (k : TokenKind) (item : Phrase α) : Phrase (List α)
  | nil : IsEach k item [] []
  | cons {t : Token} {τ σ : List Token} {a : α} {as : List α} : t.kind = k → item τ a →
      IsEach k item σ as → IsEach k item (t :: (τ ++ σ)) (a :: as)

/-- Items with commas between them, with the closing token. -/
inductive IsCommaList (closer : TokenKind) (item : Phrase α) : Phrase (List α)
  | empty {t : Token} : t.kind = closer → IsCommaList closer item [t] []
  | items {t : Token} {τ σ : List Token} {a : α} {as : List α} : item τ a →
      IsEach .comma item σ as → t.kind = closer →
      IsCommaList closer item (τ ++ (σ ++ [t])) (a :: as)

inductive IsParenthesized (expr : Phrase Expr) : Phrase Expr
  | mk {l r : Token} {τ : List Token} {e : Expr} : l.kind = .lparen → expr τ e →
      r.kind = .rparen → IsParenthesized expr (l :: (τ ++ [r])) e

inductive IsArgument (expr : Phrase Expr) : Phrase Argument
  | keyword {name equals : Token} {τ : List Token} {e : Expr} : name.kind = .ident →
      equals.kind = .equals → expr τ e →
      IsArgument expr (name :: equals :: τ) (.keyword name.text e)
  | positional {τ : List Token} {e : Expr} : expr τ e → IsArgument expr τ (.positional e)

def integerOf (text : String) : Literal :=
  let (negative, cs) := Numeral.sign text.toList
  let n : Int := Numeral.ofDigits (cs.map digitOf)
  .int (if negative then -n else n)

def digitCount (text : String) : Nat := (Numeral.sign text.toList).2.length

/-- A number token that is not too long to be read. -/
def FitsDigits (text : String) : Prop := digitCount text ≤ Numeral.digitLimit

/-- An expression without indices behind it.  Integers are written by the number
tokens that `fits` allows. -/
inductive IsPrimary (fits : String → Prop) (expr : Nat → Phrase Expr) : Phrase Expr
  | number {t : Token} : t.kind = .number → fits t.text →
      IsPrimary fits expr [t] (.literal t.location (integerOf t.text))
  | float {t : Token} : t.kind = .float →
      IsPrimary fits expr [t] (.literal t.location (fractionLiteral t.text))
  | string {t : Token} : t.kind = .string →
      IsPrimary fits expr [t] (.literal t.location (.str t.text))
  | tensor {t : Token} {τ : List Token} {items : List Expr} : t.kind = .lbracket →
      IsCommaList .rbracket (expr Reader.Weight.item) τ items →
      IsPrimary fits expr (t :: τ) (.tensor t.location items)
  | group {τ : List Token} {e : Expr} : IsParenthesized (expr Reader.Weight.parenthesis) τ e →
      IsPrimary fits expr τ e
  | name {t : Token} : t.kind = .ident → IsPrimary fits expr [t] (.name t.location t.text)
  | call {t l : Token} {τ : List Token} {args : List Argument} : t.kind = .ident →
      l.kind = .lparen → IsCommaList .rparen (IsArgument (expr Reader.Weight.argument)) τ args →
      args.Pairwise (fun a b => a.name?.isSome → b.name?.isSome) →
      IsPrimary fits expr (t :: l :: τ) (.call t.location t.text args)

inductive IsIndexGroups (expr : Phrase Expr) : Phrase (List (Location × List Expr))
  | nil : IsIndexGroups expr [] []
  | cons {t : Token} {τ σ : List Token} {indices : List Expr} {gs : List (Location × List Expr)} :
      t.kind = .lbracket → IsCommaList .rbracket expr τ indices → IsIndexGroups expr σ gs →
      IsIndexGroups expr (t :: (τ ++ σ)) ((t.location, indices) :: gs)

def indexed (head : Expr) (groups : List (Location × List Expr)) : Expr :=
  groups.foldl (fun base (loc, indices) => .index loc base indices) head

inductive IsExpression (primary index : Phrase Expr) : Phrase Expr
  | mk {τ σ : List Token} {head : Expr} {groups : List (Location × List Expr)} :
      primary τ head → IsIndexGroups index σ groups →
      IsExpression primary index (τ ++ σ) (indexed head groups)

/-! ## Statements -/

inductive IsParam (types : List TypeName) (expr : Phrase Expr) : Phrase Param
  | plain {type colon name : Token} : type.kind = .ident → type.text ∈ types →
      colon.kind = .colon → name.kind = .ident →
      IsParam types expr [type, colon, name] ⟨type.text, name.text, none⟩
  | default {type colon name equals : Token} {τ : List Token} {e : Expr} : type.kind = .ident →
      type.text ∈ types → colon.kind = .colon → name.kind = .ident → equals.kind = .equals →
      expr τ e →
      IsParam types expr (type :: colon :: name :: equals :: τ) ⟨type.text, name.text, some e⟩

/-- The statements of a block and the brace that closes it. -/
inductive IsItems (joins : List Token → TokenKind → Prop) (stmt : Phrase Stmt) :
    Phrase (List Stmt)
  | close {t : Token} : t.kind = .rbrace → IsItems joins stmt [t] []
  | newline {t : Token} {τ : List Token} {ss : List Stmt} : t.kind = .newline →
      IsItems joins stmt τ ss → IsItems joins stmt (t :: τ) ss
  | stmt {t : Token} {τ σ : List Token} {s : Stmt} {ss : List Stmt} : stmt τ s →
      ¬ joins τ t.kind → IsItems joins stmt (t :: σ) ss →
      IsItems joins stmt (τ ++ t :: σ) (s :: ss)

inductive IsBlock (joins : List Token → TokenKind → Prop) (stmt : Phrase Stmt) : Phrase Block
  | mk {l : Token} {τ : List Token} {ss : List Stmt} : l.kind = .lbrace →
      IsItems joins stmt τ ss → IsBlock joins stmt (l :: τ) (.mk l.location ss)

inductive IsGuarded (test : Phrase Expr) (block : Phrase Block) : Phrase Branch
  | mk {τ σ : List Token} {e : Expr} {b : Block} : IsParenthesized test τ e → block σ b →
      IsGuarded test block (τ ++ σ) (.mk e b)

inductive IsStatement (types : List TypeName) (joins : List Token → TokenKind → Prop)
    (expr : Nat → Phrase Expr) (stmt : Phrase Stmt) : Phrase Stmt
  | declaration {type colon name equals : Token} {τ : List Token} {e : Expr} :
      type.kind = .ident → type.text ∈ types → colon.kind = .colon → name.kind = .ident →
      equals.kind = .equals → expr Reader.Weight.declared τ e →
      IsStatement types joins expr stmt (type :: colon :: name :: equals :: τ)
        (.assign name.location name.text e (some type.text))
  | assignment {name equals : Token} {τ : List Token} {e : Expr} : name.kind = .ident →
      equals.kind = .equals → expr Reader.Weight.operand τ e →
      IsStatement types joins expr stmt (name :: equals :: τ)
        (.assign name.location name.text e none)
  | cellAssignment {name equals : Token} {τ σ : List Token} {g : Location × List Expr}
      {gs : List (Location × List Expr)} {e : Expr} : name.kind = .ident →
      IsIndexGroups (expr (Reader.Weight.operand + 1 + Reader.Weight.index)) τ (g :: gs) →
      equals.kind = .equals → expr Reader.Weight.operand σ e →
      IsStatement types joins expr stmt (name :: (τ ++ equals :: σ))
        (.assignCell equals.location (indexed (.name name.location name.text) (g :: gs)) e)
  | choice {keyword : Token} {τ σ : List Token} {first : Branch} {others : List Branch} :
      keyword.kind = .keyword .ifWord →
      IsGuarded (expr Reader.Weight.test) (IsBlock joins stmt) τ first →
      IsEach (.keyword .elseifWord)
        (IsGuarded (expr Reader.Weight.test) (IsBlock joins stmt)) σ others →
      IsStatement types joins expr stmt (keyword :: (τ ++ σ))
        (.ifElse keyword.location (first :: others) none)
  | choiceElse {keyword otherwise : Token} {τ σ ρ : List Token} {first : Branch}
      {others : List Branch} {b : Block} : keyword.kind = .keyword .ifWord →
      IsGuarded (expr Reader.Weight.test) (IsBlock joins stmt) τ first →
      IsEach (.keyword .elseifWord)
        (IsGuarded (expr Reader.Weight.test) (IsBlock joins stmt)) σ others →
      otherwise.kind = .keyword .elseWord → IsBlock joins stmt ρ b →
      IsStatement types joins expr stmt (keyword :: (τ ++ (σ ++ otherwise :: ρ)))
        (.ifElse keyword.location (first :: others) (some b))
  | whileLoop {keyword : Token} {τ σ : List Token} {e : Expr} {b : Block} :
      keyword.kind = .keyword .whileWord → IsParenthesized (expr Reader.Weight.test) τ e →
      IsBlock joins stmt σ b →
      IsStatement types joins expr stmt (keyword :: (τ ++ σ)) (.whileLoop keyword.location e b)
  | forLoop {keyword l counter comma r : Token} {τ σ : List Token} {e : Expr} {b : Block} :
      keyword.kind = .keyword .forWord → l.kind = .lparen → counter.kind = .ident →
      comma.kind = .comma → expr Reader.Weight.operand τ e → r.kind = .rparen →
      IsBlock joins stmt σ b →
      IsStatement types joins expr stmt (keyword :: l :: counter :: comma :: (τ ++ r :: σ))
        (.forLoop keyword.location counter.text e b)
  | define {keyword name l colon type : Token} {τ σ : List Token} {params : List Param}
      {b : Block} : keyword.kind = .keyword .funcWord → name.kind = .ident → l.kind = .lparen →
      IsCommaList .rparen (IsParam types (expr Reader.Weight.default)) τ params →
      params.Pairwise (fun p q => p.default.isSome → q.default.isSome) →
      colon.kind = .colon → type.kind = .ident → type.text ∈ types → IsBlock joins stmt σ b →
      IsStatement types joins expr stmt (keyword :: name :: l :: (τ ++ colon :: type :: σ))
        (.define keyword.location name.text params type.text b)
  | returnNothing {keyword l r : Token} : keyword.kind = .keyword .returnWord →
      l.kind = .lparen → r.kind = .rparen →
      IsStatement types joins expr stmt [keyword, l, r] (.returnValue keyword.location none)
  | returnValue {keyword : Token} {τ : List Token} {e : Expr} :
      keyword.kind = .keyword .returnWord → IsParenthesized (expr Reader.Weight.operand) τ e →
      IsStatement types joins expr stmt (keyword :: τ) (.returnValue keyword.location (some e))
  | breakLoops {keyword : Token} {τ : List Token} {e : Expr} :
      keyword.kind = .keyword .breakWord → IsParenthesized (expr Reader.Weight.test) τ e →
      IsStatement types joins expr stmt (keyword :: τ) (.breakLoops keyword.location e)
  | continueLoop {keyword l r : Token} : keyword.kind = .keyword .continueWord →
      l.kind = .lparen → r.kind = .rparen →
      IsStatement types joins expr stmt [keyword, l, r] (.continueLoop keyword.location)
  | evaluate {τ : List Token} {e : Expr} : expr 0 τ e →
      IsStatement types joins expr stmt τ (.evaluate e)

/-! ## The two grammars -/

/-- No token goes on with what stands before it. -/
def Never (_ : List Token) (_ : TokenKind) : Prop := False

theorem not_never (τ : List Token) (k : TokenKind) : ¬ Never τ k := fun h => h

inductive IsExpr : Phrase Expr
  | mk {τ : List Token} {e : Expr} :
      IsExpression (IsPrimary (fun _ => True) fun _ => IsExpr) IsExpr τ e → IsExpr τ e

inductive IsStmt (types : List TypeName) (joins : List Token → TokenKind → Prop) : Phrase Stmt
  | mk {τ : List Token} {s : Stmt} :
      IsStatement types joins (fun _ => IsExpr) (IsStmt types joins) τ s → IsStmt types joins τ s

/-- The expressions that can be read within a number of levels, some of which
are taken. -/
def ExprWithin (fits : String → Prop) : Nat → Nat → Phrase Expr
  | 0, _ => fun _ _ => False
  | n + 1, 0 =>
    IsExpression (IsPrimary fits (ExprWithin fits n)) (ExprWithin fits n Reader.Weight.index)
  | n + 1, extra + 1 => ExprWithin fits n extra

def EndsWith (k : TokenKind) (τ : List Token) : Prop := ∃ t ∈ τ.getLast?, t.kind = k

def BeginsWithKeyword (τ : List Token) : Prop := ∃ t ∈ τ.head?, ∃ k, t.kind = .keyword k

/-- An expression goes on with indices, and with arguments if it ends with a name. -/
def Extends (τ : List Token) (k : TokenKind) : Prop :=
  k = .lbracket ∨ (k = .lparen ∧ EndsWith .ident τ)

/-- A statement goes on as the expression does that it ends with, if it ends with
one. -/
def Joins (τ : List Token) (k : TokenKind) : Prop := Extends τ k ∧ ¬ BeginsWithKeyword τ

/-- The statements that can be read within a number of levels, some of which are
taken, with neighbours in blocks taken together where they can be. -/
def StmtWithin (types : List TypeName) (fits : String → Prop) : Nat → Nat → Phrase Stmt
  | 0, _ => fun _ _ => False
  | n + 1, 0 =>
    IsStatement types Joins (ExprWithin fits n) (StmtWithin types fits n Reader.Weight.block)
  | n + 1, extra + 1 => StmtWithin types fits n extra

end Grammar

end SpanScript
