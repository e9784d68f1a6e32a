import SpanScript.Proofs.Session.Located
import SpanScript.Proofs.Syntax.Spelling

/-!
# Messages of one line

A message has no newline of its own, and neither have names, numbers and places.  What it
may have one from is the template: a byte behind a backslash, which is shown as it is, and
a text that is to be converted and cannot be.

* `oneLine_message`: the messages of faults.
* `perform_oneLine`: the messages of a session.
-/

namespace SpanScript

/-! ## Texts -/

structure OneLine (s : String) : Prop where
  not_mem : '\n' ∉ s.toList

/-- The characters of a text that is given can be gone through. -/
theorem oneLine_of_all {cs : List Char} (h : cs.all (· != '\n') = true) :
    OneLine (String.ofList cs) := by
  refine ⟨fun hn => ?_⟩
  rw [String.toList_ofList] at hn
  exact absurd (List.all_eq_true.mp h _ hn) (by decide)

theorem oneLine_append (s t : String) : OneLine (s ++ t) ↔ OneLine s ∧ OneLine t := by
  refine ⟨fun ⟨h⟩ => ?_, fun ⟨⟨hs⟩, ⟨ht⟩⟩ => ⟨?_⟩⟩
  · rw [String.toList_append, List.mem_append, not_or] at h
    exact ⟨⟨h.1⟩, ⟨h.2⟩⟩
  · rw [String.toList_append, List.mem_append, not_or]
    exact ⟨hs, ht⟩

theorem oneLine_repr (n : Nat) : OneLine n.repr := by
  refine ⟨fun h => ?_⟩
  rw [Nat.toList_repr] at h
  exact absurd (Nat.isDigit_of_mem_toDigits (by decide) (by decide) h) (by decide)

theorem oneLine_toString (n : Nat) : OneLine (toString n) := oneLine_repr n

theorem oneLine_toString_int (n : Int) : OneLine (toString n) := by
  cases n with
  | ofNat n => exact oneLine_repr n
  | negSucc n => exact (oneLine_append _ _).mpr ⟨oneLine_of_all rfl, oneLine_repr _⟩

theorem oneLine_intercalate {sep : String} {xs : List String} (hs : OneLine sep)
    (h : ∀ x ∈ xs, OneLine x) : OneLine (sep.intercalate xs) := by
  refine ⟨?_⟩
  rw [String.toList_intercalate]
  induction xs with
  | nil => exact List.not_mem_nil
  | cons x xs ih =>
    obtain ⟨hx, hxs⟩ := List.forall_mem_cons.mp h
    cases xs with
    | nil =>
      rw [List.map_cons, List.map_nil, List.intercalate_singleton]
      exact hx.not_mem
    | cons y ys =>
      rw [List.map_cons, List.map_cons, List.intercalate_cons_cons, List.mem_append,
        List.mem_append, not_or, not_or]
      exact ⟨⟨hx.not_mem, hs.not_mem⟩, ih hxs⟩

theorem char_eq_newline_iff (b : UInt8) : Char.ofNat b.toNat = '\n' ↔ b = Bytes.newline := by
  refine ⟨fun h => ?_, fun h => h ▸ rfl⟩
  have hb := b.toNat_lt
  rw [Char.ofNat, dif_pos (.inl (by omega))] at h
  exact UInt8.toNat_inj.mp (congrArg Char.toNat h)

theorem IsName.oneLine {x : String} (h : IsName x) : OneLine x := by
  obtain ⟨bs, hbs, rfl⟩ := h
  refine ⟨fun hn => ?_⟩
  rw [Alphabet.ascii, String.toList_ofList] at hn
  obtain ⟨b, hb, hc⟩ := List.mem_map.mp hn
  rw [(char_eq_newline_iff b).mp hc] at hb
  exact absurd (hbs _ hb) (by decide)

/-- A single byte is shown as the character that it is, or as the one for faults. -/
theorem Utf8.decodeLossy_singleton (b : UInt8) :
    decodeLossy [b] = String.ofList [Char.ofNat b.toNat] ∨
      decodeLossy [b] = String.ofList [replacement] ∧ ¬ b < 0x80 := by
  unfold decodeLossy scan
  by_cases hb : b < 0x80
  · refine .inl ?_
    rw [scanFrom, start, if_pos hb]
    rfl
  · refine .inr ⟨?_, hb⟩
    have hs : start b = .fault ∨
        ∃ low high bits due, start b = .longer (.partway low high bits due) := by
      unfold start
      rw [if_neg hb]
      repeat' split
      all_goals first | exact .inl rfl | exact .inr ⟨_, _, _, _, rfl⟩
    rw [scanFrom]
    rcases hs with hs | ⟨_, _, _, _, hs⟩ <;> rw [hs] <;> rfl

/-- A single byte that is shown is a newline only if it is one. -/
theorem oneLine_decodeLossy_iff (b : UInt8) :
    OneLine (Utf8.decodeLossy [b]) ↔ b ≠ Bytes.newline := by
  have hlossy : OneLine (String.ofList [Utf8.replacement]) := oneLine_of_all rfl
  rcases Utf8.decodeLossy_singleton b with h | ⟨h, hb⟩
  · rw [h]
    refine ⟨fun hn hb => hn.not_mem ?_, fun hb => ⟨fun hn => ?_⟩⟩
    · rw [String.toList_ofList, (char_eq_newline_iff b).mpr hb]
      exact List.mem_singleton_self _
    · rw [String.toList_ofList, List.mem_singleton] at hn
      exact hb ((char_eq_newline_iff b).mp hn.symm)
  · rw [h]
    exact iff_of_true (oneLine_of_all rfl) fun hn => hb (hn ▸ by decide)

theorem oneLine_text {file : String} (loc : Location) :
    OneLine (loc.text file) ↔ OneLine file := by
  have hcolon : OneLine ":" := oneLine_of_all rfl
  simp only [Location.text, oneLine_append, hcolon, oneLine_toString, and_true]

/-! ## Words -/

theorem Kind.oneLine_name (k : Kind) : OneLine k.name := by
  cases k <;> exact oneLine_of_all rfl

theorem Kind.oneLine_noun (k : Kind) : OneLine k.noun := by
  cases k <;> exact oneLine_of_all rfl

theorem Builtin.oneLine_name (op : Builtin) : OneLine op.name := by
  cases op <;> exact oneLine_of_all rfl

theorem TokenKind.oneLine_name (k : TokenKind) : OneLine k.name := by
  cases k with
  | keyword k => cases k <;> exact oneLine_of_all rfl
  | _ => exact oneLine_of_all rfl

/-! ## Faults -/

theorem LexProblem.oneLine_message_iff {p : LexProblem} (h : p ≠ .unexpected Bytes.newline) :
    OneLine p.message ↔ p ≠ .unknownEscape (some Bytes.newline) := by
  have hquote : OneLine "'" := oneLine_of_all rfl
  unfold message
  cases p with
  | unexpected b =>
    have hb : b ≠ Bytes.newline := fun hb => h (hb ▸ rfl)
    have hlead : OneLine "Unexpected character '" := oneLine_of_all rfl
    simp only [oneLine_append, oneLine_decodeLossy_iff, hlead, hquote]
    exact iff_of_true ⟨⟨trivial, hb⟩, trivial⟩ fun h => nomatch h
  | unknownEscape b? =>
    have hlead : OneLine "Unknown escape '\\" := oneLine_of_all rfl
    simp only [oneLine_append, hlead, hquote, true_and, and_true]
    cases b? with
    | none => exact iff_of_true (oneLine_of_all rfl) fun h => nomatch h
    | some b =>
      refine (oneLine_decodeLossy_iff b).trans (not_congr ⟨fun hb => hb ▸ rfl, fun h => ?_⟩)
      exact Option.some.inj (LexProblem.unknownEscape.inj h)
  | _ => exact iff_of_true (oneLine_of_all rfl) fun h => nomatch h

theorem Fault.oneLine_message {cause : Fault} (h : ∀ x ∈ cause.names, OneLine x)
    (hc : ∀ op text, cause = .cannotConvert op text → OneLine text) : OneLine cause.message := by
  have hlimit : OneLine printTooLongMessage :=
    (oneLine_append _ _).mpr ⟨oneLine_of_all rfl, oneLine_of_all rfl⟩
  cases cause
  case index problem =>
    show OneLine problem.message
    cases problem <;> exact oneLine_of_all rfl
  all_goals
    unfold message
    simp only [oneLine_append, Kind.oneLine_name, Kind.oneLine_noun, Builtin.oneLine_name,
      oneLine_toString, oneLine_toString_int, hlimit, and_true, true_and]
  all_goals
    repeat' apply And.intro
  all_goals first
    | exact oneLine_of_all rfl
    | exact h _ (List.mem_cons_self ..)
    | exact h _ (List.mem_cons_of_mem _ (List.mem_cons_self ..))
    | exact hc _ _ rfl
    | exact oneLine_intercalate (oneLine_of_all rfl) h

theorem SyntaxProblem.oneLine_message {problem : SyntaxProblem} {loc : Location}
    (h : (ParseFault.located problem loc).Spelled)
    (hl : problem ≠ .lexical (.unknownEscape Bytes.newline)) : OneLine problem.message := by
  cases problem with
  | lexical p => exact (LexProblem.oneLine_message_iff h).mpr fun hp => hl (hp ▸ rfl)
  | _ =>
    unfold message
    simp only [oneLine_append, TokenKind.oneLine_name, and_true]
    repeat' apply And.intro
    all_goals first
      | exact oneLine_of_all rfl
      | exact IsName.oneLine h

/-! ## Reports -/

/-- A report shows a newline of the template: the byte behind a backslash, or one in a text
that cannot be converted. -/
inductive ShowsNewline (file : String) : String → Prop
  | escape (loc : Location) :
    ShowsNewline file ((SyntaxProblem.lexical (.unknownEscape Bytes.newline)).report loc file)
  | conversion {op : Builtin} {text : String} (loc : Location) : ¬ OneLine text →
    ShowsNewline file ((Fault.cannotConvert op text).message ++ " at " ++ loc.text file)

theorem ShowsNewline.not_oneLine {file message : String} (h : ShowsNewline file message) :
    ¬ OneLine message := by
  intro hm
  cases h with
  | escape loc =>
    unfold SyntaxProblem.report at hm
    simp only [oneLine_append] at hm
    have hp : LexProblem.unknownEscape Bytes.newline ≠ .unexpected Bytes.newline :=
      fun h => nomatch h
    exact (LexProblem.oneLine_message_iff hp).mp hm.1.1 rfl
  | conversion loc htext =>
    unfold Fault.message at hm
    simp only [oneLine_append] at hm
    exact htext hm.1.1.1.2

namespace Session

theorem oneLine_ofParseFault {file : String} (hf : OneLine file) {x : ParseFault} (hx : x.Spelled)
    {offset : Nat} {message : String} {place : Int}
    (h : ofParseFault file offset x = .failed message place) :
    OneLine message ∨ ShowsNewline file message := by
  cases x with
  | located problem loc =>
    obtain ⟨rfl, -⟩ := Outcome.failed.inj h
    by_cases hp : problem = .lexical (.unknownEscape Bytes.newline)
    · exact .inr (hp ▸ .escape loc)
    · refine .inl ?_
      simp only [SyntaxProblem.report, oneLine_append, oneLine_text, hf, and_true]
      exact ⟨SyntaxProblem.oneLine_message hx hp, oneLine_of_all rfl⟩
  | tooDeep =>
    obtain ⟨rfl, -⟩ := Outcome.failed.inj h
    exact .inl ((oneLine_append _ _).mpr ⟨oneLine_of_all rfl, oneLine_toString _⟩)
  | literalTooLong n => cases h

theorem oneLine_ofFailure {file : String} (hf : OneLine file) {x : Failure}
    (hx : ∀ cause loc, x = .fault cause loc → ∀ y ∈ cause.names, OneLine y)
    {offset : Nat} {message : String} {place : Int}
    (h : ofFailure file offset x = .failed message place) :
    OneLine message ∨ ShowsNewline file message := by
  cases x with
  | fault cause loc =>
    obtain ⟨rfl, -⟩ := Outcome.failed.inj h
    by_cases hc : ∀ op text, cause = .cannotConvert op text → OneLine text
    · refine .inl ?_
      simp only [oneLine_append, oneLine_text, hf, and_true]
      exact ⟨Fault.oneLine_message (hx cause loc rfl) hc, oneLine_of_all rfl⟩
    · simp only [not_forall] at hc
      obtain ⟨op, text, rfl, htext⟩ := hc
      exact .inr (.conversion loc htext)
  | escaped what => cases h
  | unfinished => cases h

theorem parse_spelled (limits : Limits) (text : PlacedText) (offset : Nat) :
    (∀ {stmt stop}, parse limits text offset = .ok (stmt, stop) →
      (Material.named IsName).stmt stmt) ∧
      ∀ {x}, parse limits text offset = .error x → x.Spelled := by
  unfold parse
  dsimp only
  generalize hr : Reader.next Kind.names limits.nesting _ = r
  obtain ⟨x | stmt, s⟩ := r
  · exact ⟨fun h => (nomatch h), fun h => Except.error.inj h ▸ Reader.next_spelled.2 hr⟩
  · refine ⟨fun h => ?_, fun h => (nomatch h)⟩
    obtain ⟨rfl, -⟩ := Prod.mk.inj (Except.ok.inj h)
    exact Reader.next_spelled.1 hr

theorem oneLine_of_blames {cause : Fault} {loc : Location}
    (h : (Material.named IsName).Blames cause loc) : ∀ x ∈ cause.names, OneLine x := by
  intro x hx
  have hrules : ∀ y ∈ integerRules, OneLine y := by
    simp only [integerRules, List.forall_mem_cons]
    exact ⟨oneLine_of_all rfl, oneLine_of_all rfl, oneLine_of_all rfl, oneLine_of_all rfl,
      fun _ h => nomatch h⟩
  rcases h.names x hx with hn | hr
  · exact (Material.of_name hn).oneLine
  · exact hrules x hr

/-- **The failures of a session are told in one line**, unless a newline of the template is
shown. -/
theorem perform_oneLine {s : Session} (hs : s.store.Within (.named IsName)) (hf : OneLine s.file)
    (text : PlacedText) (offset : Nat) :
    (s.perform text offset).2.store.Within (.named IsName) ∧
      (s.perform text offset).2.file = s.file ∧
      ∀ {message place}, (s.perform text offset).1 = .failed message place →
        OneLine message ∨ ShowsNewline s.file message := by
  unfold perform
  cases hp : parse s.limits text offset with
  | error x =>
    exact ⟨hs, rfl, oneLine_ofParseFault hf ((parse_spelled s.limits text offset).2 hp)⟩
  | ok parsed =>
    obtain ⟨stmt, stop⟩ := parsed
    obtain ⟨hw, hb⟩ := runStatement_within s.limits hs
      ((parse_spelled s.limits text offset).1 hp)
    dsimp only
    generalize runStatement s.limits s.store stmt = r at hw hb
    obtain ⟨x | u, store⟩ := r
    · refine ⟨hw, rfl, oneLine_ofFailure hf fun cause loc hx => ?_⟩
      exact oneLine_of_blames (hb cause loc (congrArg _ hx))
    · exact ⟨hw, rfl, fun h => nomatch h⟩

end Session

end SpanScript
