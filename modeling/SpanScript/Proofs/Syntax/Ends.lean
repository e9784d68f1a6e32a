import SpanScript.Proofs.Syntax.LookAhead

/-!
# Where statements begin and end

The tokens of a statement lie between two offsets of the text that it is read from.  Before
the first of them there are newlines and what is dropped before tokens, and both are trivia.
The last one is the end of an expression, a parenthesis or a brace.

* `Trivia.skip_gap`: what may be dropped before a token is trivia.
* `Cursor.Reads.start_eq`: the first token behind newlines begins where the trivia end.
* `Cursor.Reads.last_stop`: the last token ends where reading has come to.
* `not_endsWith_newline`: the last token of a statement is no newline.
-/

namespace SpanScript

open Grammar Alphabet

/-! ## Where a statement begins -/

/-- What may be dropped before a token is trivia. -/
theorem Trivia.skip_gap (bs : Bytes) : skip false (bs.drop (gap bs)) = skip false bs := by
  have hcomment : ∀ bs : Bytes,
      skip false (bs.drop (bs.takeWhile (· != Bytes.newline)).length) = skip true bs := by
    intro bs
    induction bs with
    | nil => rfl
    | cons b bs ih =>
      by_cases hb : (b == Bytes.newline) = true
      · rw [List.takeWhile_cons_of_neg (by simpa using hb), List.length_nil, List.drop_zero, skip,
          skip, if_pos hb, if_pos (by rw [eq_of_beq hb]; decide)]
      · rw [List.takeWhile_cons_of_pos (by simpa using hb), List.length_cons, List.drop_succ_cons,
          ih, skip, if_neg hb]
  induction bs with
  | nil => rfl
  | cons b bs ih =>
    by_cases h1 : isBlank b = true
    · rw [gap_blank h1, List.drop_succ_cons, ih, skip, if_pos (by rw [h1, Bool.true_or])]
    · by_cases h2 : (b == hash) = true
      · obtain rfl := eq_of_beq h2
        rw [gap_hash, Nat.add_comm, List.drop_succ_cons, hcomment, skip, if_neg (by decide),
          if_pos (by decide)]
      · rw [gap_of_not_begins (by simpa using h1) (by simpa using h2), List.drop_zero]

/-- A token is a newline if it begins with a separator, and else no trivia begins there. -/
theorem Lexeme.newline_or_bare {b : UInt8} {bs : Bytes} {l : Lexeme} (h : scan (b :: bs) = .ok l) :
    (isSeparator b = true ∧ l = ⟨.newline, "\n", 1⟩) ∨
      (beginsTrivia b = false ∧ l.kind ≠ .newline) := by
  by_cases hs : isSeparator b = true
  · rw [scan, if_pos hs] at h
    exact .inl ⟨hs, (Except.ok.inj h).symm⟩
  refine .inr ⟨?_, ?_⟩
  · rw [beginsTrivia, Bool.or_eq_false_iff, Bool.or_eq_false_iff]
    refine ⟨⟨Bool.eq_false_iff.mpr fun hb => ?_, Bool.eq_false_iff.mpr hs⟩,
      Bool.eq_false_iff.mpr fun hb => ?_⟩
    · have hb : (b = 32 ∨ b = 9) ∨ b = 13 := by simpa [isBlank] using hb
      rcases hb with (rfl | rfl) | rfl <;> cases h
    · obtain rfl := eq_of_beq hb
      cases h
  · rw [scan, if_neg hs] at h
    split at h
    · next kind hk =>
      cases h
      rintro rfl
      exact symbol?_ne (.inr (.inl rfl)) b hk
    split at h
    · obtain ⟨content, n, text, -, -, rfl⟩ := quoted_eq_ok h
      exact TokenKind.noConfusion
    split at h
    · split at h <;> cases h
      exact number_kind_ne (by decide) (by decide) _ _
    split at h
    · cases h
      exact number_kind_ne (by decide) (by decide) _ _
    split at h
    · cases h
      exact word_kind_ne (by decide) (fun _ => TokenKind.noConfusion) _
    · cases h

namespace Cursor

variable {c d : Cursor} {t : Token} {ν τ : List Token}

/-- A newline token is a separator. -/
theorem skip_of_newline (h : c.next = .ok (t, d)) (ht : t.kind = .newline) :
    Trivia.skip false c.rest = Trivia.skip false d.rest := by
  obtain ⟨g, b, q, hl⟩ := exists_lies_of_next h (by rw [ht]; decide)
  have hgap : c.rest.drop (gap c.rest) = b :: (q ++ d.rest) := by
    rw [hl.gap, hl.rest, List.drop_left]
  rcases Lexeme.newline_or_bare hl.scan with ⟨hs, hone⟩ | ⟨-, hne⟩
  · obtain rfl : q = [] :=
      List.eq_nil_of_length_eq_zero (by simpa using congrArg Lexeme.length hone)
    rw [← Trivia.skip_gap, hgap, Trivia.skip, if_pos (by rw [hs, Bool.or_true]), List.nil_append]
  · exact absurd ht hne

theorem Reads.skip_newlines (h : c.Reads ν d) (hν : Reader.IsNewlines ν) :
    Trivia.skip false c.rest = Trivia.skip false d.rest := by
  induction h with
  | nil => rfl
  | cons hn _ _ ih =>
    obtain ⟨ht, hν⟩ := List.forall_mem_cons.mp hν
    rw [skip_of_newline hn ht, ih hν]

/-- A token that is no newline begins where the trivia before it end. -/
theorem skip_of_next (h : c.next = .ok (t, d)) (ht : t.kind ≠ .newline) (he : t.kind ≠ .eof) :
    Trivia.skip false c.rest = c.rest.drop (gap c.rest) := by
  obtain ⟨g, b, q, hl⟩ := exists_lies_of_next h he
  have hgap : c.rest.drop (gap c.rest) = b :: (q ++ d.rest) := by
    rw [hl.gap, hl.rest, List.drop_left]
  rcases Lexeme.newline_or_bare hl.scan with ⟨-, hone⟩ | ⟨hb, -⟩
  · exact absurd (congrArg Lexeme.kind hone) ht
  · rw [← Trivia.skip_gap, hgap, Trivia.skip_of_not_begins hb]

/-- **The first token behind newlines** begins at the first byte that is no trivia. -/
theorem Reads.start_eq {text : Bytes} {offset : Nat} {loc : Location}
    (h : (ofText text offset text.length loc).Reads (ν ++ t :: τ) d) (hν : Reader.IsNewlines ν)
    (ht : t.kind ≠ .newline) : t.start = pastTrivia text offset text.length := by
  obtain ⟨e, hr, hre⟩ := h.split
  obtain ⟨f, hn, he, -⟩ := hre.exists_next
  obtain ⟨p, hp, ho, -, -⟩ := hr.exists_bytes
  have hskip := (hr.skip_newlines hν).trans (skip_of_next hn ht he)
  have hstart : t.start = e.offset + gap e.rest := by
    obtain ⟨g, b, q, hl⟩ := exists_lies_of_next hn he
    rw [hl.start, hl.gap]
  have hgap := gap_le e.rest
  rw [pastTrivia_eq _ (Nat.le_refl _)]
  have hp : text.window offset text.length = p ++ e.rest := hp
  have ho : e.offset = offset + p.length := ho
  have hskip : Trivia.skip false (text.window offset text.length) =
    e.rest.drop (gap e.rest) := hskip
  rw [hskip, hp, hstart, ho, List.length_append, List.length_drop]
  omega

/-- A token that is walked over begins before the place where the walk ends. -/
theorem Reads.start_lt (h : c.Reads (ν ++ t :: τ) d) : t.start < d.offset := by
  obtain ⟨e, -, hr⟩ := h.split
  obtain ⟨f, hn, ht, -⟩ := hr.exists_next
  obtain ⟨g, b, q, hl⟩ := exists_lies_of_next hn ht
  have hstop := hr.stop_le
  rw [hl.stop, hl.offset] at hstop
  rw [hl.start]
  omega

/-- A walk that begins in a text ends in it. -/
theorem Reads.offset_le_length {text : Bytes} {offset : Nat} {loc : Location}
    (h : (ofText text offset text.length loc).Reads τ d) (ho : offset ≤ text.length) :
    d.offset ≤ text.length := by
  obtain ⟨p, hp, hoffset, -, -⟩ := h.exists_bytes
  have hp : text.drop offset = p ++ d.rest := by
    rw [← hp]
    exact (Bytes.window_length _ _).symm
  have hoffset : d.offset = offset + p.length := hoffset
  have hlength := congrArg List.length hp
  rw [List.length_drop, List.length_append] at hlength
  omega

theorem Reads.last_stop (h : c.Reads τ d) :
    ∀ t ∈ τ.getLast?, t.stop = d.offset ∧ t.kind ≠ .eof := by
  induction h with
  | nil => exact fun t ht => nomatch ht
  | @cons c e d t τ hn ht hr ih =>
    cases τ with
    | nil =>
      cases hr
      intro u hu
      obtain rfl : t = u := Option.some.inj hu
      exact ⟨(stop_of_next hn).1, ht⟩
    | cons v τ => exact fun u hu => ih u (by rwa [List.getLast?_cons_cons] at hu)

end Cursor

/-! ## Where a statement ends -/

namespace Grammar

open Reader

variable {τ σ : List Token} {joins : List Token → TokenKind → Prop}

theorem EndsWith.append {k : TokenKind} (τ : List Token) (h : EndsWith k σ) :
    EndsWith k (τ ++ σ) := by
  refine (endsWith_append ?_).mpr h
  rintro rfl
  obtain ⟨t, ht, -⟩ := h
  cases ht

theorem EndsWith.not {k k' : TokenKind} (h : EndsWith k τ) (hk : k ≠ k') : ¬ EndsWith k' τ :=
  fun h' => hk (endsWith_unique h h')

theorem not_endsWith_newline_primary {fits : String → Prop} {R : Nat → Phrase Expr} {e : Expr}
    (h : IsPrimary fits R τ e) : ¬ EndsWith .newline τ := by
  cases h with
  | number hk _ => exact EndsWith.not ⟨_, rfl, hk⟩ (by decide)
  | float hk => exact EndsWith.not ⟨_, rfl, hk⟩ (by decide)
  | string hk => exact EndsWith.not ⟨_, rfl, hk⟩ (by decide)
  | @tensor t τ _ _ hR => exact (EndsWith.append [t] (endsWith_commaList hR).2).not (by decide)
  | group h => exact (endsWith_parenthesized h).not (by decide)
  | name hk => exact EndsWith.not ⟨_, rfl, hk⟩ (by decide)
  | @call t l τ _ _ _ hR _ =>
    exact (EndsWith.append [t, l] (endsWith_commaList hR).2).not (by decide)

theorem not_endsWith_newline_expr {e : Expr} (h : IsExpr τ e) : ¬ EndsWith .newline τ := by
  cases isExpr_iff.mp h with
  | @mk τ σ head gs hp hg =>
    by_cases hσ : σ = []
    · subst hσ
      rw [List.append_nil]
      exact not_endsWith_newline_primary hp
    · rw [endsWith_append hσ]
      exact (indexGroups_end hg hσ).not (by decide)

theorem endsWith_items {S : Phrase Stmt} {ss : List Stmt} (h : IsItems joins S τ ss) :
    EndsWith .rbrace τ := by
  induction h with
  | close ht => exact ⟨_, rfl, ht⟩
  | @newline t _ _ _ _ ih => exact ih.append [t]
  | stmt _ _ _ ih => exact ih.append _

theorem endsWith_block {S : Phrase Stmt} {b : Block} (h : IsBlock joins S τ b) :
    EndsWith .rbrace τ := by
  cases h with
  | @mk l _ _ _ hi => exact (endsWith_items hi).append [l]

theorem endsWith_guarded {E : Phrase Expr} {S : Phrase Stmt} {b : Branch}
    (h : IsGuarded E (IsBlock joins S) τ b) : EndsWith .rbrace τ := by
  cases h with
  | mk _ hb => exact (endsWith_block hb).append _

/-- Blocks that follow each other end as one of them does, if there is one before them. -/
theorem endsWith_each {α : Type} {k k' : TokenKind} {R : Phrase α} {as : List α}
    (hR : ∀ {τ a}, R τ a → EndsWith k' τ) (h : IsEach k R σ as) (hτ : EndsWith k' τ) :
    EndsWith k' (τ ++ σ) := by
  induction h generalizing τ with
  | nil =>
    rw [List.append_nil]
    exact hτ
  | @cons t σ ρ a as _ ha _ ih =>
    have := ih ((hR ha).append (τ ++ [t]))
    simpa using this

/-- **No statement ends with a newline.** -/
theorem not_endsWith_newline {types : List TypeName} {stmt : Stmt} (h : IsStmt types joins τ stmt) :
    ¬ EndsWith .newline τ := by
  -- a statement ends as its last part does
  have hexpr (ρ : List Token) {σ : List Token} {e : Expr} (h : IsExpr σ e) :
      ¬ EndsWith .newline (ρ ++ σ) := by
    rw [endsWith_append (expression_shape (isExpr_iff.mp h)).ne_nil]
    exact not_endsWith_newline_expr h
  have hends {k : TokenKind} (ρ : List Token) {σ : List Token} (h : EndsWith k σ)
      (hk : k ≠ .newline) : ¬ EndsWith .newline (ρ ++ σ) := (h.append ρ).not hk
  cases isStmt_iff.mp h with
  | @declaration type colon name equals τ _ _ _ _ _ _ he =>
    exact hexpr [type, colon, name, equals] he
  | @assignment name equals τ _ _ _ he => exact hexpr [name, equals] he
  | @cellAssignment name equals τ σ _ _ _ _ _ _ he =>
    have := hexpr (name :: (τ ++ [equals])) he
    simpa using this
  | @choice keyword τ σ _ _ _ hb hbs =>
    exact hends [keyword] (endsWith_each endsWith_guarded hbs (endsWith_guarded hb)) (by decide)
  | @choiceElse keyword otherwise τ σ ρ _ _ _ _ _ _ _ hb =>
    have := hends (keyword :: (τ ++ (σ ++ [otherwise]))) (endsWith_block hb) (by decide)
    simpa using this
  | @whileLoop keyword τ σ _ _ _ _ hb => exact hends (keyword :: τ) (endsWith_block hb) (by decide)
  | @forLoop keyword l counter comma r τ σ _ _ _ _ _ _ _ _ hb =>
    have := hends (keyword :: l :: counter :: comma :: (τ ++ [r])) (endsWith_block hb) (by decide)
    simpa using this
  | @define keyword name l colon type τ σ _ _ _ _ _ _ _ _ _ _ hb =>
    have := hends (keyword :: name :: l :: (τ ++ [colon, type])) (endsWith_block hb) (by decide)
    simpa using this
  | @returnNothing keyword l r _ _ hr => exact hends [keyword, l] ⟨r, rfl, hr⟩ (by decide)
  | @returnValue keyword τ _ _ he =>
    exact hends [keyword] (endsWith_parenthesized he) (by decide)
  | @breakLoops keyword τ _ _ he =>
    exact hends [keyword] (endsWith_parenthesized he) (by decide)
  | @continueLoop keyword l r _ _ hr => exact hends [keyword, l] ⟨r, rfl, hr⟩ (by decide)
  | evaluate he => exact not_endsWith_newline_expr he

end Grammar

end SpanScript
