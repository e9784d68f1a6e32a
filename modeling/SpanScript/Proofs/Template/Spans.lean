import SpanScript.Proofs.Session.InTurn
import SpanScript.Proofs.Template.Append

/-!
# Spans laid end to end

A template of spans with nothing between them is a way to run statements in turn.  Each of
them is parsed where it stands, up to its closing marker, and run by itself; what it prints
is all that is written.

* `Session.parse_placed`: a text that is a statement by itself is one in a span.
* `Spans`: the spans of statements, laid end to end; `exists_spans`: those of texts.
* `Spans.segments`: rendering them is running the statements in turn.
-/

namespace SpanScript

namespace Session

/-! ## Statements in spans -/

/-- A statement at another offset is the same one, but for its places. -/
theorem parse_shifted {limits : Limits} {text text' : PlacedText} {offset stop k : Nat}
    {stmt : Stmt} (ht : text'.text.drop (offset + k) = text.text.drop offset)
    (h : parse limits text offset = .ok (stmt, stop)) :
    ∃ stmt', parse limits text' (offset + k) = .ok (stmt', stop + k) ∧
      stmt.relocate Location.forget = stmt'.relocate Location.forget := by
  obtain ⟨r, hn, hend⟩ := parse_eq_ok.mp h
  obtain ⟨a, r, b, r', ha, hb, hab, hends⟩ | ⟨x, _, _, _, hx, _, _⟩ :=
    Reader.next_shifted Kind.names limits.nesting (shifted_ofText ht)
  · rw [hn] at ha
    cases ha
    exact ⟨b, parse_eq_ok.mpr ⟨r', hb, by rw [hends, hend]⟩, hab⟩
  · rw [hn] at hx
    cases hx

/-- A text that is a statement by itself is the same one, but for its places, wherever it
stands before a closing marker. -/
theorem parse_placed {limits : Limits} {s : Bytes} {stmt : Stmt}
    (h : parse limits (.ofBytes s) 0 = .ok (stmt, s.length)) {text : PlacedText} {offset : Nat}
    {rest : Bytes} (ht : text.text.drop offset = s ++ rest) (hr : Closing rest) :
    ∃ stmt', parse limits text offset = .ok (stmt', offset + s.length) ∧
      stmt.relocate Location.forget = stmt'.relocate Location.forget := by
  have hcut : parse limits ⟨s ++ rest, s.locate⟩ 0 = .ok (stmt, s.length) := by
    refine parse_local h rfl ?_ ?_
    · exact List.take_left.trans List.take_length.symm
    · rw [List.drop_left]
      exact hr
  have hdrop : text.text.drop (0 + offset) = (s ++ rest).drop 0 := by
    rw [Nat.zero_add, List.drop_zero]
    exact ht
  have hshift := parse_shifted hdrop hcut
  rwa [Nat.zero_add, Nat.add_comm s.length] at hshift

/-- A statement takes up bytes. -/
theorem lt_of_parse {limits : Limits} {text : PlacedText} {offset stop : Nat} {stmt : Stmt}
    (h : parse limits text offset = .ok (stmt, stop)) : offset < stop := by
  obtain ⟨r, hn, hend⟩ := parse_eq_ok.mp h
  obtain ⟨τ, hne, hreads, hstop, -⟩ := Reader.next_tokens hn
  obtain ⟨p, -, hoffset, -, hlength⟩ := hreads.exists_bytes
  have hpos := List.length_pos_iff.mpr hne
  have hstart : (Cursor.ofText text.text offset text.text.length (text.locate offset)).offset
      = offset := rfl
  omega

/-- Why a render stops at a statement that fails. -/
def Failure.stop (file : String) (start : Nat) : Failure → RenderStop
  | .fault cause loc => .fault (.failed (cause.message ++ " at " ++ loc.text file) start)
  | .escaped what => .escaped what.message
  | .unfinished => .unfinished

theorem Failure.stops (m : Markers) (body : Bytes) (file : String) (start : Nat) (f : Failure) :
    Stops m body start (ofFailure file start f) (f.stop file start) := by
  cases f with
  | fault cause loc => exact .failed
  | escaped what => exact .escaped
  | unfinished => exact .unfinished

/-- How a render ends, by how the last statement did that was run. -/
def EndsBy (file : String) (stop : Option RenderStop) : Except Failure Unit → Prop
  | .ok _ => stop = none
  | .error f => ∃ start, stop = some (f.stop file start)

end Session

/-! ## Spans of statements -/

/-- From an offset on a text consists of the spans of statements, laid end to end. -/
inductive Spans (limits : Limits) (text : PlacedText) : Nat → List Stmt → Prop
  | nil {first : Nat} : text.text.drop first = [] → Spans limits text first []
  | cons {first stop : Nat} {stmt : Stmt} {stmts : List Stmt} :
      Markers.standard.opener <+: text.text.drop first →
      Session.parse limits text (first + Markers.standard.opener.length) = .ok (stmt, stop) →
      Markers.standard.closer <+: text.text.drop stop →
      Spans limits text (stop + Markers.standard.closer.length) stmts →
      Spans limits text first (stmt :: stmts)

/-- Texts as the statements of spans, laid end to end. -/
def spansOf (texts : List Bytes) : Bytes :=
  texts.flatMap fun s => Markers.standard.opener ++ (s ++ Markers.standard.closer)

/-- Texts that are statements by themselves are the statements of their spans, but for the
places. -/
theorem exists_spans {limits : Limits} {text : PlacedText} {texts : List Bytes}
    {stmts : List Stmt}
    (h : List.Forall₂ (fun s a => Session.parse limits (.ofBytes s) 0 = .ok (a, s.length))
      texts stmts) :
    ∀ {first : Nat}, text.text.drop first = spansOf texts →
      ∃ stmts', Spans limits text first stmts' ∧
        stmts.map (Stmt.relocate Location.forget) = stmts'.map (Stmt.relocate Location.forget) := by
  induction h with
  | nil => exact fun ht => ⟨[], .nil ht, rfl⟩
  | @cons s a texts stmts hs _ ih =>
    intro first ht
    have hopen : text.text.drop first
        = Markers.standard.opener ++ (s ++ (Markers.standard.closer ++ spansOf texts)) := by
      rw [ht, spansOf, List.flatMap_cons]
      simp only [List.append_assoc, spansOf]
    have hbody : text.text.drop (first + Markers.standard.opener.length)
        = s ++ (Markers.standard.closer ++ spansOf texts) := Bytes.drop_past hopen
    have hclose : text.text.drop (first + Markers.standard.opener.length + s.length)
        = Markers.standard.closer ++ spansOf texts := Bytes.drop_past hbody
    have hnext : text.text.drop
        (first + Markers.standard.opener.length + s.length + Markers.standard.closer.length)
          = spansOf texts := Bytes.drop_past hclose
    obtain ⟨b, hb, hab⟩ := Session.parse_placed hs hbody (.inr ⟨[], spansOf texts, .nil, rfl⟩)
    obtain ⟨bs, hbs, habs⟩ := ih hnext
    refine ⟨b :: bs, .cons ⟨_, hopen.symm⟩ hb ⟨_, hclose.symm⟩ hbs, ?_⟩
    rw [List.map_cons, List.map_cons, hab, habs]

/-! ## Rendering them -/

/-- The passage of a span with no text before it. -/
def Passage.ofSpan (first stop : Nat) (written : String) : Passage :=
  ⟨first, first, stop, stop, [written]⟩

theorem firstAt_self {needle bs : Bytes} {first : Nat} (h : needle <+: bs.drop first) :
    Bytes.FirstAt needle bs first first where
  le := Nat.le_refl _
  stands := h
  leftmost k h1 h2 := absurd h1 (by omega)

theorem Passage.stands_ofSpan {body : Bytes} {first stop : Nat} (written : String)
    (ho : Markers.standard.opener <+: body.drop first)
    (hl : first + Markers.standard.opener.length < stop)
    (hc : Markers.standard.closer <+: body.drop stop) :
    (Passage.ofSpan first stop written).Stands .standard body where
  opens := firstAt_self ho
  start_lt_stop := hl
  stop_le := Nat.le_of_add_right_le
    (Bytes.add_length_le_of_prefix Markers.standard.closer_ne_nil hc)
  stop_le_closing := Nat.le_refl _
  trivia := by
    show IsTrivia (body.window stop stop)
    rw [Bytes.window_eq_nil body (Nat.le_refl stop)]
    exact .nil
  closes := hc
  closer_bare := by
    intro b hb
    obtain rfl : (125 : UInt8) = b := Option.some.inj hb
    decide

theorem Passage.output_ofSpan (body : Bytes) (first stop : Nat) (written : String) :
    (Passage.ofSpan first stop written).output body = Bytes.ofString written := by
  show body.window first first ++ [written].flatMap Bytes.ofString = _
  rw [Bytes.window_eq_nil body (Nat.le_refl first)]
  simp

/-- What a session answers to a render, by how the statement ends. -/
theorem execute_of_parse (file : String) {limits : Limits} (store : Store) {text : PlacedText}
    {start stop : Nat} {stmt : Stmt} (h : Session.parse limits text start = .ok (stmt, stop)) :
    Boundary.session.execute ⟨file, limits, store⟩ text start =
      let (result, next) := Session.runStatement limits store stmt
      { environment := ⟨file, limits, next.flushed⟩
        written := [next.printed]
        outcome := match result with
          | .ok _ => .ended stop
          | .error f => Session.ofFailure file start f } := by
  unfold Boundary.session Session.perform
  simp only [h]
  rcases Session.runStatement limits store stmt with ⟨_ | _, next⟩ <;> rfl

/-- **Rendering spans is running their statements in turn.**  As many spans are passed as
statements end normally, what these print is written, and the render stops at a statement
that fails. -/
theorem Spans.segments (file : String) {limits : Limits} {text : PlacedText} {first : Nat}
    {stmts : List Stmt} (h : Spans limits text first stmts) :
    ∀ store : Store,
      let p := Session.inTurn limits store stmts
      ∃ ps e, Segments .session .standard text first ⟨file, limits, store⟩ ps e ∧
        ps.length = p.ended ∧ segmentsOutput text.text ps e = p.printed.flatMap Bytes.ofString ∧
        e.environment = ⟨file, limits, p.store⟩ ∧ Session.EndsBy file e.stop? p.result := by
  induction h with
  | @nil first hnil =>
    intro store
    have habsent : Bytes.AbsentFrom Markers.standard.opener text.text first := by
      intro k hk hprefix
      obtain ⟨n, rfl⟩ := Nat.exists_eq_add_of_le hk
      rw [← List.drop_drop, hnil, List.drop_nil] at hprefix
      exact Markers.standard.opener_ne_nil (List.prefix_nil.mp hprefix)
    refine ⟨[], _, .finished habsent, rfl, ?_, rfl, rfl⟩
    show text.text.window first text.text.length = []
    rw [Bytes.window_length, hnil]
  | @cons first stop stmt stmts ho hparse hc _ ih =>
    intro store
    have hx := execute_of_parse file store hparse
    have hlt := Session.lt_of_parse hparse
    rw [Session.inTurn]
    rcases hrun : Session.runStatement limits store stmt with ⟨f | _, next⟩
    · rw [hrun] at hx
      dsimp only at hx ⊢
      have hstops : Stops .standard text.text (first + Markers.standard.opener.length)
          (Boundary.session.execute ⟨file, limits, store⟩ text
            (first + Markers.standard.opener.length)).outcome
          (f.stop file (first + Markers.standard.opener.length)) := by
        rw [hx]
        exact Session.Failure.stops ..
      refine ⟨[], _, .stopped (firstAt_self ho) hstops, rfl, ?_, ?_, _, rfl⟩
      · show text.text.window first first ++ _ = _
        rw [Bytes.window_eq_nil _ (Nat.le_refl first), hx]
        rfl
      · rw [Ending.environment, hx]
    · rw [hrun] at hx
      obtain ⟨ps, e, hseg, hlength, hout, henv, hend⟩ := ih next.flushed
      refine ⟨.ofSpan first stop next.printed :: ps, e,
        .passed (Passage.stands_ofSpan _ ho hlt hc) hx hseg, ?_, ?_, henv, hend⟩
      · rw [List.length_cons, hlength]
      · rw [segmentsOutput, List.flatMap_cons, Passage.output_ofSpan, List.append_assoc,
          List.flatMap_cons, ← hout]
        rfl

end SpanScript
