import SpanScript.Proofs.Session.Places
import SpanScript.Proofs.Syntax.Ends
import SpanScript.Proofs.Syntax.Exact
import SpanScript.Proofs.Template.Endings

/-!
# What a render may rely on

A render asks a session for the statement at an offset, and goes on where the session says
that it ended.  It checks that this is behind the offset and inside the text, and need not:
the offset that a session answers is always the end of a token, which belongs to the
statement.  The statement begins with the first byte that is no trivia, and of what is
behind it no more than one token has been looked at.

* `Session.Parsed`: what is known of a statement that a session has read.
* `Session.parsed_of_parse`: every statement that is read is such.
* `boundary_contract`: so is the one that a session says has ended, and no render finds
  fault with the offset.
-/

namespace SpanScript

open Grammar Reader

namespace Session

/-- The place from which the statement at an offset is read. -/
def cursorAt (text : PlacedText) (offset : Nat) : Cursor :=
  .ofText text.text offset text.text.length (text.locate offset)

/-- The statement `stmt` at an offset, read from the tokens `first :: rest` behind the
newlines `ν`, with the state that reading is left in. -/
structure Parsed (limits : Limits) (text : PlacedText) (offset : Nat) (stmt : Stmt)
    (ν : List Token) (first : Token) (rest : List Token) (r : ReadState) : Prop where
  next : Reader.next Kind.names limits.nesting (.start (cursorAt text offset)) = (.ok stmt, r)
  newlines : IsNewlines ν
  reads : (cursorAt text offset).Reads (ν ++ first :: rest) r.cursor
  statement : IsStmt Kind.names Joins (first :: rest) stmt
  /-- The first token begins where the trivia end. -/
  first_start : first.start = pastTrivia text.text offset text.text.length
  /-- The statement is not empty. -/
  start_lt : first.start < r.cursor.offset
  stop_le : r.cursor.offset ≤ text.text.length
  /-- The last token ends the statement. -/
  last_stop : ∃ last ∈ (first :: rest).getLast?, last.stop = r.cursor.offset ∧
    last.kind ≠ .newline ∧ last.kind ≠ .eof
  /-- One token behind the last one has been looked at, at most. -/
  reach_le : r.reach ≤ r.cursor.ahead
  /-- Nor does anything behind that token matter, be it the end or no token at all. -/
  frugal : ∀ c d, c.Reads (ν ++ first :: rest) d → r.cursor.Like d →
    ∃ r', Reader.next Kind.names limits.nesting (.start c) = (.ok stmt, r') ∧ r'.cursor = d ∧
      r'.reach ≤ d.ahead

/-- **What is known of a statement that has been read.** -/
theorem parsed_of_parse {limits : Limits} {text : PlacedText} {offset stop : Nat} {stmt : Stmt}
    (ho : offset ≤ text.text.length) (h : parse limits text offset = .ok (stmt, stop)) :
    ∃ ν first rest r, Parsed limits text offset stmt ν first rest r ∧ r.cursor.offset = stop := by
  obtain ⟨r, hnext, hstop⟩ := parse_eq_ok.mp h
  obtain ⟨ν, τ, hν, hr, hend, hS⟩ := next_sound hnext
  have hshape := begins_statement (readsExprs (P := fun _ _ => True) (fun _ => trivial)
    (fun _ _ => trivial) 0) τ stmt (isStmt_iff.mp hS)
  obtain ⟨first, rest, rfl, hfirst⟩ := hshape
  -- the tokens that are taken tell the statement, with the one behind them
  obtain ⟨σ, hc, hanswers⟩ := frugal_oneStatement Kind.names limits.nesting
    ⟨.start (cursorAt text offset), ready_start _⟩ stmt r hnext
  obtain rfl := hr.tokens_unique hc.reads
  have hfrugal : ∀ c d, c.Reads (ν ++ first :: rest) d → r.cursor.Like d →
      ∃ r', Reader.next Kind.names limits.nesting (.start c) = (.ok stmt, r') ∧ r'.cursor = d ∧
        r'.reach ≤ d.ahead := by
    intro c d hcd hl
    obtain ⟨r', h1, hc', hreach⟩ := hanswers (.start c) d (ready_start c)
      (by rwa [List.append_nil]) hl
    obtain rfl := hc'.reads.unique hcd
    refine ⟨r', h1, rfl, Nat.le_trans hreach (Nat.max_le.mpr ⟨?_, Nat.le_refl _⟩)⟩
    exact Nat.le_trans (Cursor.offset_le_ahead c) hcd.ahead_le
  have hreach : r.reach ≤ r.cursor.ahead := by
    obtain ⟨r', h1, -, hle⟩ := hfrugal _ _ hr (.refl _)
    rw [hnext] at h1
    cases h1
    exact hle
  refine ⟨ν, first, rest, r, ⟨hnext, hν, hr, hS, hr.start_eq hν (startsStmt_ne hfirst).1,
    hr.start_lt, hr.offset_le_length ho, ?_, hreach, hfrugal⟩, hend.symm.trans hstop⟩
  obtain ⟨last, hlast⟩ : ∃ last, last ∈ (first :: rest).getLast? :=
    Option.isSome_iff_exists.mp (by simp)
  have hmem : last ∈ (ν ++ first :: rest).getLast? := by
    rwa [List.getLast?_append_of_ne_nil _ (List.cons_ne_nil _ _)]
  obtain ⟨hs, he⟩ := hr.last_stop last hmem
  exact ⟨last, hlast, hs, fun hk => not_endsWith_newline hS ⟨last, hlast, hk⟩, he⟩

/-- A statement that has ended has been read, up to the offset that is answered. -/
theorem exists_parsed_of_ended {s s' : Session} {text : PlacedText} {offset : Nat} {stop : Int}
    (ho : offset ≤ text.text.length) (h : s.perform text offset = (.ended stop, s')) :
    ∃ stmt ν first rest r, Parsed s.limits text offset stmt ν first rest r ∧
      stop = r.cursor.offset := by
  unfold perform at h
  split at h
  · next f _ =>
    cases f <;> cases congrArg Prod.fst h
  · next stmt n hp =>
    obtain ⟨ν, first, rest, r, hparsed, rfl⟩ := parsed_of_parse ho hp
    split at h
    · exact ⟨stmt, ν, first, rest, r, hparsed, (Outcome.ended.inj (congrArg Prod.fst h)).symm⟩
    · next f _ _ =>
      cases f <;> cases congrArg Prod.fst h

/-- It has ended behind its beginning and inside the text. -/
theorem stop_within_of_ended {s s' : Session} {text : PlacedText} {offset : Nat} {stop : Int}
    (ho : offset ≤ text.text.length) (h : s.perform text offset = (.ended stop, s')) :
    (pastTrivia text.text offset text.text.length : Int) < stop ∧ stop ≤ text.text.length := by
  obtain ⟨stmt, ν, first, rest, r, hparsed, rfl⟩ := exists_parsed_of_ended ho h
  have hstart := hparsed.start_lt
  rw [hparsed.first_start] at hstart
  exact ⟨Int.ofNat_lt.mpr hstart, Int.ofNat_le.mpr hparsed.stop_le⟩

end Session

/-! ## Renders -/

/-- A statement that a render comes to begins inside the text. -/
theorem ComesTo.start_le {ε : Type} {b : Boundary ε} {m : Markers} {text : PlacedText}
    {start first : Nat} {env env' : ε} (h : ComesTo b m text start env' first env) :
    start ≤ text.text.length := by
  induction h with
  | here hf hstart =>
    rw [hstart]
    exact Bytes.add_length_le_of_prefix m.opener_ne_nil hf.stands
  | later _ _ _ ih => exact ih

/-- A job that has begun is not rendered; of any other the run decides how it stops. -/
theorem RenderJob.render_fst {ε : Type} (b : Boundary ε) (m : Markers) (t : Template)
    (job : RenderJob ε) : (job.render b m t).1 = some .reused ∨
      (job.render b m t).1 = (job.rendering.run b m t.placed (b.create t.path)).1 := by
  unfold render
  split
  · exact .inl rfl
  · refine .inr ?_
    rcases job.rendering.run b m t.placed (b.create t.path) with ⟨_ | s, r, env⟩
    · rfl
    · cases s <;> rfl

/-- **The boundary keeps its contract.**  Whenever a session says that the statement at an
offset has ended, it has read a statement there, from the first byte that is no trivia up to
the offset that it answers, which is the end of a token, and it has looked at one token
behind that at most.  So the offset lies behind the statement's beginning and inside the
text, and no render stops because it does not. -/
theorem boundary_contract :
    (∀ (s s' : Session) (text : PlacedText) (offset : Nat) (stop : Int),
      offset ≤ text.text.length → s.perform text offset = (.ended stop, s') →
      pastTrivia text.text offset text.text.length < stop ∧ stop ≤ text.text.length ∧
        ∃ stmt ν first rest r, Session.Parsed s.limits text offset stmt ν first rest r ∧
          stop = r.cursor.offset) ∧
      ∀ (m : Markers) (t : Template) (job : RenderJob Session) (start : Nat) (stop : Int),
        (job.render .session m t).1 ≠ some (.fault (.invalidEnd start stop)) := by
  refine ⟨fun s s' text offset stop ho h => ?_, fun m t job start stop hfault => ?_⟩
  · obtain ⟨hstart, hstop⟩ := Session.stop_within_of_ended ho h
    exact ⟨hstart, hstop, Session.exists_parsed_of_ended ho h⟩
  · rcases job.render_fst .session m t with hx | hx <;> rw [hx] at hfault
    · cases hfault
    obtain ⟨ps, e, hseg, hrun⟩ := run_segments .session m t.placed job.rendering
      (Session.start t.path)
    have hstop : e.stop? = some (.fault (.invalidEnd start stop)) :=
      (congrArg Prod.fst hrun).symm.trans hfault
    cases e with
    | finished => cases hstop
    | stopped first opening reply stop' =>
      obtain rfl : stop' = .fault (.invalidEnd start stop) := Option.some.inj hstop
      obtain ⟨start', s, hc, hs⟩ := hseg.comesTo rfl
      generalize ho : (Boundary.session.execute s t.placed start').outcome = o at hs
      cases hs with
      | invalidEnd hn =>
        have hle := Trivia.le_pastTrivia t.placed.text start t.placed.text.length
        have hended : s.perform t.placed start
            = (.ended stop, (s.perform t.placed start).2) := Prod.ext ho rfl
        obtain ⟨h1, h2⟩ := Session.stop_within_of_ended hc.start_le hended
        exact hn ⟨by omega, h2⟩

/-- A declaration behind a separator and before closing braces. -/
theorem boundary_contract_declaration :
    let text : PlacedText := .ofBytes [59, 73, 78, 84, 58, 120, 61, 49, 125, 125]
    ((Session.start "t").perform text 0).1 = .ended 8 ∧
      (pastTrivia text.text 0 text.text.length : Int) < 8 ∧
      (∃ stmt ν first rest r, Session.Parsed .standard text 0 stmt ν first rest r ∧
        8 = (r.cursor.offset : Int)) ∧
      (RenderJob.fresh.render .session .standard
        (.ofRaw "t" .mapped [123, 123, 73, 78, 84, 58, 120, 61, 49, 125, 125])).1
          ≠ some (.fault (.invalidEnd 2 9)) := by
  intro text
  have hended : ((Session.start "t").perform text 0).1 = .ended 8 := by decide +kernel
  have hperform : (Session.start "t").perform text 0
      = (.ended 8, ((Session.start "t").perform text 0).2) := by
    rw [← hended]
  have hkept := boundary_contract.1 (Session.start "t") _ text 0 8 (Nat.zero_le _) hperform
  exact ⟨hended, hkept.1, hkept.2.2, boundary_contract.2 _ _ _ _ _⟩

end SpanScript
