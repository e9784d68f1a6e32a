import SpanScript.Proofs.Syntax.SelfEnding
import SpanScript.Proofs.Template.Spans

/-!
# Other closing markers

A render may be asked for another closing marker than two braces.  Whoever reads a statement
is not told of it: reading ends where the grammar lets it end.  So it is the statement that
decides whether a marker is found that begins with a byte of no token.

* `Foreign`: a byte that begins no token and no trivia, and goes on with no name and no
  number.
* `Session.parse_before_foreign`: what is parsed of a statement before such a byte.  A
  statement that ends itself is parsed there as before braces; of any other one the byte is
  reported.
* `foreign_closer`: so it is in a render.  A statement that ends itself is run as before
  braces, and the render goes on behind the marker; any other one stops the render.
* `percent_closer_fails`: an assignment is one that does.
-/

namespace SpanScript

open Alphabet Reader

/-! ## Foreign bytes -/

/-- A byte that begins no token and no trivia, and with which no name and no number goes
on. -/
structure Foreign (b : UInt8) : Prop where
  no_token : ∀ rest l, Lexeme.scan (b :: rest) ≠ .ok l
  no_trivia : beginsTrivia b = false
  no_part : isNamePart b = false

/-- Where a token is asked for, a byte is reported that begins none. -/
theorem scan_unexpected {b : UInt8} (htrivia : beginsTrivia b = false)
    (hpart : isNamePart b = false) (hsymbol : symbol? b = none) (hquote : isQuote b = false)
    (hminus : (b == minus) = false) (rest : Bytes) :
    Lexeme.scan (b :: rest) = .error { problem := .unexpected b, length := 0 } := by
  have hseparator : isSeparator b = false :=
    (Bool.or_eq_false_iff.mp (beginsTrivia_eq_false htrivia).1).2
  have hname : isNameStart b = false ∧ isDigit b = false := by
    simpa only [isNamePart, Bool.or_eq_false_iff] using (Bool.or_eq_false_iff.mp hpart).1
  simp [Lexeme.scan, hseparator, hsymbol, hquote, hminus, hname]

theorem foreign_iff {b : UInt8} : Foreign b ↔ beginsTrivia b = false ∧ isNamePart b = false ∧
    symbol? b = none ∧ isQuote b = false ∧ (b == minus) = false := by
  constructor
  · rintro ⟨hscan, htrivia, hpart⟩
    refine ⟨htrivia, hpart, ?_, ?_, ?_⟩
    · refine Option.eq_none_iff_forall_ne_some.mpr fun kind hk => ?_
      have hseparator : isSeparator b = false :=
        (Bool.or_eq_false_iff.mp (beginsTrivia_eq_false htrivia).1).2
      refine hscan [] ⟨kind, ascii [b], 1⟩ ?_
      rw [Lexeme.scan, hseparator, if_neg Bool.false_ne_true, hk]
    · refine Bool.eq_false_iff.mpr fun hq => ?_
      have hcases : b = 34 ∨ b = 39 := by simpa [isQuote] using hq
      -- a quote begins the empty text, a minus sign the number zero
      rcases hcases with rfl | rfl
      · exact hscan [34] ⟨.string, "", 2⟩ (by decide)
      · exact hscan [39] ⟨.string, "", 2⟩ (by decide)
    · refine Bool.eq_false_iff.mpr fun hm => ?_
      obtain rfl := eq_of_beq hm
      exact hscan [48] ⟨.number, "-0", 2⟩ (by decide)
  · rintro ⟨htrivia, hpart, hsymbol, hquote, hminus⟩
    refine ⟨fun rest l h => ?_, htrivia, hpart⟩
    rw [scan_unexpected htrivia hpart hsymbol hquote hminus] at h
    cases h

theorem Foreign.scan {b : UInt8} (h : Foreign b) (rest : Bytes) :
    Lexeme.scan (b :: rest) = .error { problem := .unexpected b, length := 0 } := by
  obtain ⟨htrivia, hpart, hsymbol, hquote, hminus⟩ := foreign_iff.mp h
  exact scan_unexpected htrivia hpart hsymbol hquote hminus rest

theorem Foreign.next {b : UInt8} (h : Foreign b) {w : Bytes} (hw : ∀ a ∈ w, isBlank a = true)
    (rest : Bytes) (n : Nat) (loc : Location) : (Cursor.mk (w ++ b :: rest) n loc).next
      = .error ⟨.unexpected b, loc.after w, n + w.length⟩ := by
  unfold Cursor.next
  simp only [Cursor.move, gap_blanks hw h.no_trivia, List.drop_left, List.take_left, h.scan,
    List.drop_zero, Nat.add_zero]
  rfl

/-! ## Statements before foreign bytes -/

theorem Reader.endsItself_relocate (f : Location → Location) (a : Stmt) :
    endsItself (a.relocate f) = endsItself a := by
  cases a with
  | ifElse loc branches otherwise =>
    rw [Stmt.relocate_ifElse]
    cases otherwise <;> rfl
  | _ => rw [Stmt.relocate]; rfl

namespace Session

/-- **What is parsed before a foreign byte.**  A text `s` that is a statement where something
comes that goes on with no token, is the same one before blanks and a foreign byte if it ends
itself.  If it does not, the byte is reported. -/
theorem parse_before_foreign {limits : Limits} {text text' : PlacedText} {offset : Nat}
    {s w rest r : Bytes} {b : UInt8} {stmt : Stmt} (hb : Foreign b)
    (hw : ∀ a ∈ w, isBlank a = true)
    (h : parse limits text' offset = .ok (stmt, offset + s.length))
    (ht' : text'.text.drop offset = s ++ r) (ht : text.text.drop offset = s ++ (w ++ b :: rest))
    (hl : text'.locate offset = text.locate offset) :
    parse limits text offset = if endsItself stmt then .ok (stmt, offset + s.length)
      else .error (.located (.lexical (.unexpected b)) ((text.locate offset).after (s ++ w))) := by
  obtain ⟨q, hn, hend⟩ := parse_eq_ok.mp h
  obtain ⟨ν, τ, -, hreads, hstop, -⟩ := next_sound hn
  -- the tokens of the statement take up `s`, and come on the other text too
  obtain ⟨p, hp, hoffset, hlocation, -⟩ := hreads.exists_bytes
  have hrest : s ++ r = p ++ q.cursor.rest := by
    rw [← hp, ← ht']
    exact (Bytes.window_length _ _).symm
  have hoffset : q.cursor.offset = offset + p.length := hoffset
  obtain ⟨rfl, -⟩ := List.append_inj hrest (by omega)
  have hlocation : q.cursor.location = (text.locate offset).after s := hl ▸ hlocation
  have hreads' : (Cursor.ofText text.text offset text.text.length (text.locate offset)).Reads
      (ν ++ τ) ⟨w ++ b :: rest, q.cursor.offset, q.cursor.location⟩ := by
    rw [Cursor.ofText, Bytes.window_length, ht, ← hl]
    exact hreads.exchange hp (neutral_blanks hw hb.no_part rest)
  cases ha : endsItself stmt with
  | true =>
    obtain ⟨q', hn', hcursor⟩ := next_of_endsItself hn ha hreads hreads'
    obtain ⟨-, -, -, -, hstop', -⟩ := next_sound hn'
    refine parse_eq_ok.mpr ⟨q', hn', ?_⟩
    rw [hstop', hcursor, hoffset]
  | false =>
    obtain ⟨q', hn'⟩ := next_of_broken hn ha hreads hreads' rfl (hb.next hw rest _ _)
    have herror := parse_eq_error.mpr ⟨q', hn'⟩
    rwa [faultOf, hlocation, ← Location.after_append] at herror

end Session

/-! ## Renders -/

/-- The markers with two braces for the closing one. -/
def Markers.braced (m : Markers) : Markers :=
  { m with closer := closeBraces, closer_ne_nil := List.cons_ne_nil _ _ }

/-- The passage of a span at an offset, of which `s` is the statement and `w` the trivia behind
it, with no text before it. -/
def Passage.ofParts (m : Markers) (first : Nat) (s w : Bytes) (written : List String) : Passage :=
  let start := first + m.opener.length
  ⟨first, first, start + s.length, start + s.length + w.length, written⟩

theorem Passage.stands_ofParts {m : Markers} {body s w tail : Bytes} {first : Nat}
    (written : List String)
    (h : body.drop first = m.opener ++ (s ++ (w ++ (m.closer ++ tail)))) (hs : 0 < s.length)
    (hw : IsTrivia w) (hb : ∀ b ∈ m.closer.head?, beginsTrivia b = false) :
    (Passage.ofParts m first s w written).Stands m body := by
  have hbody := Bytes.drop_past h
  have hbehind := Bytes.drop_past hbody
  have hcloses := Bytes.drop_past hbehind
  have hle := Bytes.add_length_le_of_prefix m.closer_ne_nil ⟨_, hcloses.symm⟩
  refine ⟨firstAt_self ⟨_, h.symm⟩, Nat.lt_add_of_pos_right hs, ?_, Nat.le_add_right _ _, ?_,
    ⟨_, hcloses.symm⟩, hb⟩
  · show first + m.opener.length + s.length ≤ body.length
    omega
  · exact (Bytes.window_of_prefix ⟨_, hbehind.symm⟩).symm ▸ hw

/-- A render stops at a statement that has no text before it. -/
theorem Rendering.run_stopped {ε : Type} {b : Boundary ε} {m : Markers} {text : PlacedText}
    {r : Rendering} {env : ε} {stop : RenderStop} (ho : m.opener <+: text.text.drop r.cursor)
    (hs : Stops m text.text (r.cursor + m.opener.length)
      (b.execute env text (r.cursor + m.opener.length)).outcome stop) :
    let reply := b.execute env text (r.cursor + m.opener.length)
    r.run b m text env
      = (some stop, { r.write reply.written with phase := stop.phase }, reply.environment) := by
  intro reply
  have hcopy : r.copy text.text r.cursor r.cursor = r := by
    rw [Rendering.copy, if_pos (Nat.le_refl _)]
  rw [(Segments.stopped (firstAt_self ho) hs).run]
  simp only [Ending.stop?, List.foldl_nil, Rendering.settle, hcopy, Ending.environment]
  rfl

/-- What a session answers to a render where no statement is parsed. -/
theorem execute_of_fault {session : Session} {text : PlacedText} {start : Nat} {f : ParseFault}
    (h : Session.parse session.limits text start = .error f) :
    Boundary.session.execute session text start
      = ⟨session.flush, [session.store.printed], Session.ofParseFault session.file start f⟩ := by
  unfold Boundary.session Session.perform
  simp only [h]
  rfl

/-- A render runs the statement `stmt` of the span `p`: this ends and the render goes on behind
the span, or it stops the render. -/
structure Session.RunsSpan (session : Session) (m : Markers) (text : PlacedText) (r : Rendering)
    (p : Passage) (stmt : Stmt) (reply : Reply Session) : Prop where
  parsed : Session.parse session.limits text (p.start m) = .ok (stmt, p.stop)
  executed : Boundary.session.execute session text (p.start m) = reply
  run : (reply.outcome = .ended p.stop ∧
      r.run .session m text session
        = (r.pass m text.text p).run .session m text reply.environment) ∨
    ∃ f : Session.Failure, reply.outcome = Session.ofFailure session.file (p.start m) f ∧
      r.run .session m text session = (some (f.stop session.file (p.start m)),
        { r.write reply.written with phase := .script }, reply.environment)

/-- The statement of a span is run where it is parsed. -/
theorem Session.runsSpan {session : Session} {m : Markers} {text : PlacedText} {r : Rendering}
    {s w : Bytes} {stmt : Stmt} {reply : Reply Session}
    (hp : (Passage.ofParts m r.cursor s w reply.written).Stands m text.text)
    (hparse : Session.parse session.limits text (r.cursor + m.opener.length)
      = .ok (stmt, r.cursor + m.opener.length + s.length))
    (hreply : Boundary.session.execute session text (r.cursor + m.opener.length) = reply) :
    session.RunsSpan m text r (Passage.ofParts m r.cursor s w reply.written) stmt reply := by
  refine ⟨hparse, hreply, ?_⟩
  have hx := execute_of_parse session.file session.store hparse
  rw [hreply] at hx
  rcases hrun : Session.runStatement session.limits session.store stmt with ⟨f | _, next⟩
  · rw [hrun] at hx
    refine .inr ⟨f, by rw [hx]; rfl, ?_⟩
    have hstops : Stops m text.text (r.cursor + m.opener.length)
        (Boundary.session.execute session text (r.cursor + m.opener.length)).outcome
        (f.stop session.file (r.cursor + m.opener.length)) := by
      rw [hreply, hx]
      exact Session.Failure.stops ..
    have hphase : (f.stop session.file (r.cursor + m.opener.length)).phase = .script := by
      cases f <;> rfl
    have hstopped := Rendering.run_stopped hp.opens.stands hstops
    rw [hreply, hphase] at hstopped
    exact hstopped
  · rw [hrun] at hx
    refine .inl ⟨by rw [hx]; rfl, Rendering.run_passed hp rfl (hreply.trans ?_)⟩
    rw [hx]
    rfl

/-- **Another closing marker.**  A span is closed by a marker that begins with a foreign byte,
and its statement parses alone.  If it ends itself, then it is run as it is before braces, with
the same reply, and the render goes on behind the marker.  If it does not, the byte is reported
as one that is not expected, nothing is run, and the render stops. -/
theorem foreign_closer (m : Markers) {b : UInt8} {closer : Bytes} (hm : m.closer = b :: closer)
    (hb : Foreign b) (session : Session) (r : Rendering) {s w tail : Bytes} {a : Stmt}
    (hs : Session.parse session.limits (.ofBytes s) 0 = .ok (a, s.length))
    (hw : ∀ c ∈ w, isBlank c = true) {text text' : PlacedText}
    (ht : text.text.drop r.cursor = m.opener ++ (s ++ (w ++ (m.closer ++ tail))))
    (ht' : text'.text.drop r.cursor = m.opener ++ (s ++ (w ++ (closeBraces ++ tail))))
    (hl : text'.locate (r.cursor + m.opener.length) = text.locate (r.cursor + m.opener.length)) :
    let start := r.cursor + m.opener.length
    let reply := Boundary.session.execute session text' start
    let p := Passage.ofParts m r.cursor s w reply.written
    ∃ stmt, a.relocate Location.forget = stmt.relocate Location.forget ∧
      session.RunsSpan m.braced text' r p stmt reply ∧
      (endsItself a = true → session.RunsSpan m text r p stmt reply ∧
        text.text.drop (p.next m) = tail) ∧
      (endsItself a = false →
        let loc := (text.locate start).after (s ++ w)
        r.run .session m text session
          = (some (.fault (.failed
              ((SyntaxProblem.lexical (.unexpected b)).report loc session.file) start)),
            { r.write [session.store.printed] with phase := .script }, session.flush)) := by
  intro start reply p
  have hbody := Bytes.drop_past ht
  have hbody' := Bytes.drop_past ht'
  have hlength : 0 < s.length := Session.lt_of_parse hs
  have htrivia := isTrivia_blanks hw
  obtain ⟨stmt, hparse', hstmt⟩ := Session.parse_placed hs hbody' (.inr ⟨w, tail, htrivia, rfl⟩)
  have hends : endsItself stmt = endsItself a := by
    rw [← endsItself_relocate Location.forget stmt, ← hstmt, endsItself_relocate]
  have hstands' : p.Stands m.braced text'.text :=
    Passage.stands_ofParts (m := m.braced) _ ht' hlength htrivia fun c hc => by
      obtain rfl : (125 : UInt8) = c := Option.some.inj hc
      decide
  have hparse := Session.parse_before_foreign hb hw hparse' hbody'
    (by rw [hbody, hm, List.cons_append]) hl
  refine ⟨stmt, hstmt, Session.runsSpan hstands' hparse' rfl, fun ha => ?_, fun ha => ?_⟩
  · rw [hends, ha, if_pos rfl] at hparse
    have hstands : p.Stands m text.text :=
      Passage.stands_ofParts _ ht hlength htrivia fun c hc => by
        obtain rfl : b = c := Option.some.inj (by rwa [hm] at hc)
        exact hb.no_trivia
    have hreply : Boundary.session.execute session text start = reply := by
      rw [execute_of_parse session.file session.store hparse,
        ← execute_of_parse session.file session.store hparse']
    exact ⟨Session.runsSpan hstands hparse hreply, Bytes.drop_past (Bytes.drop_past
      (Bytes.drop_past hbody))⟩
  · rw [hends, ha, if_neg Bool.false_ne_true] at hparse
    intro loc
    have hreply := execute_of_fault hparse
    have hstops : Stops m text.text start (Boundary.session.execute session text start).outcome
        (.fault (.failed
          ((SyntaxProblem.lexical (.unexpected b)).report loc session.file) start)) := by
      rw [hreply]
      exact .failed
    have hstopped := Rendering.run_stopped (b := .session) ⟨_, ht.symm⟩ hstops
    rw [hreply] at hstopped
    exact hstopped

/-- A loop that is closed by a percent sign, and a declaration that is not. -/
theorem foreign_closer_percent :
    let m : Markers := ⟨[60, 37], [37, 62], 10, by decide, by decide⟩
    let text := fun s : Bytes => PlacedText.ofBytes
      (m.opener ++ (s ++ ([32] ++ (m.closer ++ [111, 107]))))
    let loop : Bytes := [70, 79, 82, 40, 105, 44, 50, 41, 123, 125]
    let declaration : Bytes := [73, 78, 84, 58, 120, 61, 49]
    (∃ stmt reply, (Session.start "t").RunsSpan m (text loop) .start
      (Passage.ofParts m 0 loop [32] reply.written) stmt reply) ∧
    (Rendering.start.run .session m (text declaration) (.start "t")).1
      = some (.fault (.failed "Unexpected character '%' at t:1:11" 2)) := by
  intro m text loop declaration
  have hforeign : Foreign 37 := foreign_iff.mpr (by decide)
  have hblank : ∀ c ∈ ([32] : Bytes), isBlank c = true := List.forall_mem_singleton.mpr rfl
  let braced := fun s : Bytes => PlacedText.ofBytes
    (m.opener ++ (s ++ ([32] ++ (closeBraces ++ [111, 107]))))
  have htext (s : Bytes) : (text s).text.drop Rendering.start.cursor
      = m.opener ++ (s ++ ([32] ++ (m.closer ++ [111, 107]))) := rfl
  have hbraced (s : Bytes) : (braced s).text.drop Rendering.start.cursor
      = m.opener ++ (s ++ ([32] ++ (closeBraces ++ [111, 107]))) := rfl
  constructor
  · obtain ⟨a, ha⟩ : ∃ a, Session.parse .standard (.ofBytes loop) 0 = .ok (a, loop.length) :=
      Session.exists_of_map_parse (by decide +kernel)
    have hends : (Session.parse .standard (.ofBytes loop) 0).map (endsItself ·.1) = .ok true := by
      decide +kernel
    rw [ha] at hends
    obtain ⟨stmt, -, -, hloop, -⟩ := foreign_closer m rfl hforeign (Session.start "t") .start ha
      hblank (htext loop) (hbraced loop) (by decide)
    exact ⟨stmt, _, (hloop (Except.ok.inj hends)).1⟩
  · obtain ⟨a, ha⟩ : ∃ a, Session.parse .standard (.ofBytes declaration) 0
        = .ok (a, declaration.length) := Session.exists_of_map_parse (by decide +kernel)
    have hends : (Session.parse .standard (.ofBytes declaration) 0).map (endsItself ·.1)
        = .ok false := by
      decide +kernel
    rw [ha] at hends
    obtain ⟨stmt, -, -, -, hdeclaration⟩ := foreign_closer m rfl hforeign (Session.start "t") .start
      ha hblank (htext declaration) (hbraced declaration) (by decide)
    exact (congrArg Prod.fst (hdeclaration (Except.ok.inj hends))).trans (by decide +kernel)

/-- **A marker that begins with a percent sign does not close an assignment**, as braces do. -/
theorem percent_closer_fails :
    ¬ ∀ (m : Markers) (b : UInt8) (closer s w tail : Bytes) (a : Stmt),
      m.closer = b :: closer → Foreign b →
      Session.parse .standard (.ofBytes s) 0 = .ok (a, s.length) →
      (∀ c ∈ w, isBlank c = true) →
      let render := fun m : Markers => RenderJob.fresh.render .session m
        (.ofRaw "t" .mapped (m.opener ++ (s ++ (w ++ (m.closer ++ tail)))))
      (render m).2.rendering.scriptSpans = (render m.braced).2.rendering.scriptSpans := by
  intro hsame
  have hforeign : Foreign 37 := foreign_iff.mpr (by decide)
  obtain ⟨a, ha⟩ : ∃ a, Session.parse .standard (.ofBytes [73, 78, 84, 58, 120, 61, 49]) 0
      = .ok (a, 7) := Session.exists_of_map_parse (by decide +kernel)
  have h := hsame ⟨[60, 37], [37, 62], 10, by decide, by decide⟩ 37 [62]
    [73, 78, 84, 58, 120, 61, 49] [] [] a rfl hforeign ha (List.forall_mem_nil _)
  exact absurd h (by decide +kernel)

end SpanScript
