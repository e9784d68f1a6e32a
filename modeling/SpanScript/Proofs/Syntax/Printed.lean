import SpanScript.Proofs.Eval.Indexing
import SpanScript.Proofs.Syntax.Next
import SpanScript.Proofs.Token.Integer

/-!
# Printed integers and rows as literals

The text of an integer is parsed as a literal for it, and the text of a row of integers as a tensor
literal with a literal for each of them, whatever blanks stand around it.

* `rowText`, `ofString_rowText`: the text of a row, and its bytes.
* `exists_reads_integer`, `exists_reads_row`: the tokens, and what they derive.
* `Reader.next_integer`, `Reader.next_row`: what is parsed.
-/

namespace SpanScript

open Alphabet Grammar

def rowText (ns : List Int) : String := "[" ++ ", ".intercalate (ns.map toString) ++ "]"

/-! ## Bytes -/

theorem ofString_append (t u : String) :
    Bytes.ofString (t ++ u) = Bytes.ofString t ++ Bytes.ofString u := by
  unfold Bytes.ofString
  rw [String.toList_append, List.flatMap_append]

/-- The bytes of the integers of a row behind the first one, each after a comma and a blank. -/
def restBytes (ns : List Int) : Bytes := ns.flatMap fun n => 44 :: 32 :: Bytes.ofString (toString n)

theorem ofString_intercalate : ∀ (n : Int) (ns : List Int),
    Bytes.ofString (", ".intercalate ((n :: ns).map toString))
      = Bytes.ofString (toString n) ++ restBytes ns := by
  intro n ns
  induction ns generalizing n with
  | nil =>
    rw [List.map_singleton, String.intercalate_singleton]
    exact (List.append_nil _).symm
  | cons k ns ih =>
    have hcomma : Bytes.ofString ", " = [44, 32] := by decide +kernel
    rw [List.map_cons, List.map_cons, String.intercalate_cons_cons, ofString_append,
      ofString_append, ← List.map_cons, ih, hcomma, List.append_assoc]
    rfl

theorem ofString_rowText (n : Int) (ns : List Int) :
    Bytes.ofString (rowText (n :: ns))
      = 91 :: (Bytes.ofString (toString n) ++ (restBytes ns ++ [93])) := by
  have hopen : Bytes.ofString "[" = [91] := by decide +kernel
  have hclose : Bytes.ofString "]" = [93] := by decide +kernel
  rw [rowText, ofString_append, ofString_append, ofString_intercalate, hopen, hclose,
    List.append_assoc, List.append_assoc]
  rfl

/-! ## Derivations -/

section

variable {t : Token} {n : Int} {m extra : Nat}

/-- A number token with the text of an integer derives the literal. -/
theorem exprWithin_integer (hn : n.natAbs < printLimit) (hkind : t.kind = .number)
    (htext : t.text = toString n) :
    ExprWithin FitsDigits (m + 1 + extra) extra [t] (.literal t.location (.int n)) := by
  induction extra with
  | zero =>
    have hfits : FitsDigits t.text := htext ▸ fitsDigits_toString hn
    have hliteral : integerOf t.text = .int n := htext ▸ integerOf_toString n
    have hprimary : IsPrimary FitsDigits (ExprWithin FitsDigits m) [t]
        (.literal t.location (.int n)) := hliteral ▸ .number hkind hfits
    exact .mk hprimary .nil
  | succ extra ih => exact ih

theorem exprWithin_tensor {τ : List Token} {items : List Expr} (hkind : t.kind = .lbracket)
    (hitems : IsCommaList .rbracket (ExprWithin FitsDigits m Reader.Weight.item) τ items) :
    ExprWithin FitsDigits (m + 1) 0 (t :: τ) (.tensor t.location items) := by
  have hprimary : IsPrimary FitsDigits (ExprWithin FitsDigits m) (t :: τ)
      (.tensor t.location items) := .tensor hkind hitems
  rw [← List.append_nil (t :: τ)]
  exact .mk hprimary .nil

end

/-! ## Tokens -/

section

variable {c : Cursor} {w r : Bytes} {m : Nat}

theorem endsNumber_of_not_digit {b : UInt8} (hb : isDigit b = false) (hdot : b ≠ dot) (r : Bytes) :
    EndsNumber (b :: r) := by
  intro d hd
  obtain rfl : b = d := Option.some.inj hd
  exact ⟨hb, hdot⟩

theorem endsNumber_restBytes (ns : List Int) (r : Bytes) :
    EndsNumber (restBytes ns ++ 93 :: r) := by
  cases ns with
  | nil => exact endsNumber_of_not_digit (by decide) (by decide) r
  | cons n ns => exact endsNumber_of_not_digit (by decide) (by decide) _

/-- A printed integer is read as one token, which derives the literal. -/
theorem exists_reads_integer {n : Int} (hn : n.natAbs < printLimit)
    (hc : c.rest = w ++ (Bytes.ofString (toString n) ++ r)) (hw : ∀ a ∈ w, isBlank a = true)
    (hr : EndsNumber r) (m extra : Nat) :
    ∃ t d, c.Reads [t] d ∧ d.rest = r ∧ t.location = c.location.after w ∧
      ExprWithin FitsDigits (m + 1 + extra) extra [t] (.literal t.location (.int n)) :=
  ⟨_, _, .single (Cursor.next_integer hc hw hr) nofun, rfl, rfl, exprWithin_integer hn rfl rfl⟩

/-- The integers behind the first one, each after its comma. -/
theorem exists_reads_rest : ∀ {ns : List Int} {c : Cursor}, (∀ n ∈ ns, n.natAbs < printLimit) →
    c.rest = restBytes ns ++ 93 :: r →
    ∃ τ items d, c.Reads τ d ∧ d.rest = 93 :: r ∧ List.Forall₂ Expr.IsInteger items ns ∧
      IsEach .comma (ExprWithin FitsDigits (m + 1 + Reader.Weight.item) Reader.Weight.item) τ
        items := by
  intro ns
  induction ns with
  | nil => exact fun _ hc => ⟨[], [], _, .nil, hc, .nil, .nil⟩
  | cons n ns ih =>
    intro c hns hc
    obtain ⟨hn, hns⟩ := List.forall_mem_cons.mp hns
    have hcomma : c.rest
        = [] ++ 44 :: ([32] ++ (Bytes.ofString (toString n) ++ (restBytes ns ++ 93 :: r))) := by
      rw [hc, restBytes, List.flatMap_cons]
      simp only [List.cons_append, List.append_assoc, List.nil_append]
      rfl
    have hnext := Cursor.next_symbol .comma hcomma nofun (by decide) (by decide)
    obtain ⟨t, d, hread, hd, -, hitem⟩ := exists_reads_integer hn (w := [32])
      (c := ⟨_, c.offset + ([] : Bytes).length + 1, c.location.after ([] ++ [44])⟩) rfl
      (List.forall_mem_singleton.mpr rfl) (endsNumber_restBytes ns r) m Reader.Weight.item
    obtain ⟨τ, items, d', hreads, hd', hints, heach⟩ := ih hns hd
    exact ⟨_, .literal t.location (.int n) :: items, d', .cons hnext nofun (hread.append hreads),
      hd', .cons ⟨_, rfl⟩ hints, .cons rfl hitem heach⟩

/-- A printed row is read as the tokens of a tensor literal. -/
theorem exists_reads_row {n : Int} {ns : List Int} (hns : ∀ k ∈ n :: ns, k.natAbs < printLimit)
    (hc : c.rest = w ++ (Bytes.ofString (rowText (n :: ns)) ++ r))
    (hw : ∀ a ∈ w, isBlank a = true) (m : Nat) :
    ∃ τ items d, c.Reads τ d ∧ d.rest = r ∧ List.Forall₂ Expr.IsInteger items (n :: ns) ∧
      ExprWithin FitsDigits (m + 1 + Reader.Weight.item + 1) 0 τ
        (.tensor (c.location.after w) items) := by
  obtain ⟨hn, hns⟩ := List.forall_mem_cons.mp hns
  have hopen : c.rest
      = w ++ 91 :: ([] ++ (Bytes.ofString (toString n) ++ (restBytes ns ++ 93 :: r))) := by
    rw [hc, ofString_rowText]
    simp only [List.cons_append, List.append_assoc, List.nil_append]
  have hnext := Cursor.next_symbol .lbracket hopen hw (by decide) (by decide)
  obtain ⟨t, d, hfirst, hd, -, hitem⟩ := exists_reads_integer hn (w := [])
    (c := ⟨_, c.offset + w.length + 1, c.location.after (w ++ [91])⟩) rfl nofun
    (endsNumber_restBytes ns r) m Reader.Weight.item
  obtain ⟨τ, items, d', hreads, hd', hints, heach⟩ := exists_reads_rest (m := m) hns hd
  have hlast := Cursor.next_symbol .rbracket (w := []) hd' nofun (by decide) (by decide)
  have hrest := hfirst.append (hreads.append (.single hlast nofun))
  refine ⟨_, .literal t.location (.int n) :: items, _, .cons hnext nofun hrest, rfl,
    .cons ⟨_, rfl⟩ hints, ?_⟩
  exact exprWithin_tensor rfl (.items hitem heach rfl)

end

/-! ## Parsing -/

namespace Reader

variable {nesting : Nat} {c d : Cursor} {τ : List Token} {e : Expr}

/-- An expression before blanks that end the text is parsed as a statement, up to its last token. -/
theorem next_expression (types : List TypeName) (hr : c.Reads τ d)
    (he : ExprWithin FitsDigits nesting 0 τ e) (hd : ∀ a ∈ d.rest, isBlank a = true) :
    ∃ s, next types (nesting + 1) (.start c) = (.ok (.evaluate e), s) ∧
      s.endOffset = d.offset := by
  have hm : ReadsStmt (fun _ _ => False) (statement types (nesting + 1) 0)
      (StmtWithin types FitsDigits (nesting + 1) 0) :=
    statement_reads_within (fun h => h) (fun _ h => .inl h) (nesting + 1) 0
  have hS : StmtWithin types FitsDigits (nesting + 1) 0 τ (.evaluate e) := .evaluate he
  have hne : τ ≠ [] := by
    obtain ⟨t, σ, rfl, -⟩ := hm.shape _ _ hS
    exact List.cons_ne_nil t σ
  obtain ⟨d', hnext, -⟩ := Cursor.next_blanks hd
  have hat : At (.start c) ([] ++ τ) d := ⟨ready_start c, hr⟩
  rcases arrives_oneStatement hm hat nofun hS
    ⟨_, ⟨_, hnext⟩, closes_not_continues (.inl rfl)⟩ with ⟨s, h, hc⟩ | ⟨_, _, _, _, _, hfalse⟩
  · refine ⟨s, h, ?_⟩
    rw [hc.endOffset (by simpa using hne), ← hr.unique hc.reads]
  · exact hfalse.elim

/-- Where the bytes of a token walk end. -/
theorem offset_of_reads {w p r : Bytes} (hr : c.Reads τ d) (hc : c.rest = w ++ (p ++ r))
    (hd : d.rest = r) : d.offset = c.offset + w.length + p.length := by
  obtain ⟨q, hq, ho, -, -⟩ := hr.exists_bytes
  have hlength := congrArg List.length (hq.symm.trans hc)
  rw [hd, List.length_append, List.length_append, List.length_append] at hlength
  omega

/-- **A printed integer is parsed as the literal**, and all of it. -/
theorem next_integer {n : Int} (hn : n.natAbs < printLimit) {w r : Bytes}
    (hc : c.rest = w ++ (Bytes.ofString (toString n) ++ r)) (hw : ∀ a ∈ w, isBlank a = true)
    (hr : ∀ a ∈ r, isBlank a = true) (types : List TypeName) (hnesting : 2 ≤ nesting) :
    ∃ s, next types nesting (.start c)
        = (.ok (.evaluate (.literal (c.location.after w) (.int n))), s) ∧
      s.endOffset = c.offset + w.length + (Bytes.ofString (toString n)).length := by
  obtain ⟨m, rfl⟩ : ∃ m, nesting = m + 1 + 0 + 1 := ⟨nesting - 2, by omega⟩
  obtain ⟨t, d, hreads, hd, ht, he⟩ := exists_reads_integer hn hc hw (endsNumber_blanks hr) m 0
  obtain ⟨s, h, hs⟩ := next_expression types hreads he (hd ▸ hr)
  rw [ht] at h
  exact ⟨s, h, hs.trans (offset_of_reads hreads hc hd)⟩

/-- **A printed row is parsed as a tensor literal** of the integers, and all of it. -/
theorem next_row {n : Int} {ns : List Int} (hns : ∀ k ∈ n :: ns, k.natAbs < printLimit)
    {w r : Bytes} (hc : c.rest = w ++ (Bytes.ofString (rowText (n :: ns)) ++ r))
    (hw : ∀ a ∈ w, isBlank a = true) (hr : ∀ a ∈ r, isBlank a = true) (types : List TypeName)
    (hnesting : 5 ≤ nesting) :
    ∃ items s, List.Forall₂ Expr.IsInteger items (n :: ns) ∧
      next types nesting (.start c)
        = (.ok (.evaluate (.tensor (c.location.after w) items)), s) ∧
      s.endOffset = c.offset + w.length + (Bytes.ofString (rowText (n :: ns))).length := by
  obtain ⟨m, rfl⟩ : ∃ m, nesting = m + 1 + Weight.item + 1 + 1 :=
    ⟨nesting - 5, by unfold Weight.item; omega⟩
  obtain ⟨τ, items, d, hreads, hd, hints, he⟩ := exists_reads_row hns hc hw m
  obtain ⟨s, h, hs⟩ := next_expression types hreads he (hd ▸ hr)
  exact ⟨items, s, hints, h, hs.trans (offset_of_reads hreads hc hd)⟩

end Reader

end SpanScript
