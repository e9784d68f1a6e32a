import SpanScript.Proofs.Template.Endings
import SpanScript.Proofs.Template.Spans

/-!
# One statement per span, or one block

A program can be written as spans with one statement each, or as one span with a choice
that always holds and all the statements in its block.  Both come to the same.

Each is compared with the statements run in turn.  The spans are that, as they stand
(`Spans.segments`); the block is, once its statements are known to be those of the texts
(`Reader.next_always`), as long as it does not go too deep (`Session.runStatement_always`).
What is left are the places of the statements, at which nothing looks (`inTurn_alike`).

* `Session.ClearAt`: a statement that does not go too deep.
* `render_as_block`: the two renders.
-/

namespace SpanScript

namespace Session

/-- The statement at an offset goes too deep neither when it is read nor when it is run. -/
def ClearAt (s : Session) (text : PlacedText) (offset : Nat) : Prop :=
  parse s.limits text offset ≠ .error .tooDeep ∧
    ∀ stmt stop, parse s.limits text offset = .ok (stmt, stop) →
      (runStatement s.limits s.store stmt).1 ≠ .error (.fault .tooDeep stmt.location)

instance (s : Session) (text : PlacedText) (offset : Nat) : Decidable (s.ClearAt text offset) :=
  match h : parse s.limits text offset with
  | .error f => decidable_of_iff (f ≠ .tooDeep) (by simp [ClearAt, h])
  | .ok (stmt, _) =>
    decidable_of_iff
      ((runStatement s.limits s.store stmt).1 ≠ .error (.fault .tooDeep stmt.location))
      (by simp [ClearAt, h])

theorem spells_of_parse {limits : Limits} {s : Bytes} {stmt : Stmt}
    (h : parse limits (.ofBytes s) 0 = .ok (stmt, s.length)) :
    Reader.Spells Kind.names limits.nesting s stmt := by
  have hcursor : Cursor.ofText s 0 s.length (s.locate 0) = ⟨s, 0, s.locate 0⟩ := by
    rw [Cursor.ofText, Bytes.window_length, List.drop_zero]
  obtain ⟨r, hn, hend⟩ := parse_eq_ok.mp h
  exact ⟨s.locate 0, r, hcursor ▸ hn, hend⟩

end Session

/-! ## A choice in turn -/

theorem Bytes.ofString_append (a b : String) :
    Bytes.ofString (a ++ b) = Bytes.ofString a ++ Bytes.ofString b := by
  simp only [Bytes.ofString, String.toList_append, List.flatMap_append]

theorem Bytes.ofString_foldl : ∀ (texts : List String) (out : String),
    Bytes.ofString (texts.foldl (· ++ ·) out)
      = Bytes.ofString out ++ texts.flatMap Bytes.ofString := by
  intro texts
  induction texts with
  | nil => exact fun out => (List.append_nil _).symm
  | cons a texts ih =>
    intro out
    rw [List.foldl_cons, ih, Bytes.ofString_append, List.flatMap_cons, List.append_assoc]

namespace Session

theorem inTurn_singleton (limits : Limits) (store : Store) (stmt : Stmt) :
    let r := runStatement limits store stmt
    let p := inTurn limits store [stmt]
    p.printed = [r.2.printed] ∧ p.result = r.1 ∧ p.store = r.2.flushed := by
  simp only [inTurn]
  rcases runStatement limits store stmt with ⟨_ | _, next⟩ <;> exact ⟨rfl, rfl, rfl⟩

theorem mapError_eq_ok (f : Failure → Failure) {x : Except Failure Unit} :
    x.mapError f = .ok () ↔ x = .ok () := by
  cases x with
  | error e => exact ⟨nofun, nofun⟩
  | ok _ => exact Iff.rfl

/-- A choice that always holds, as the one statement in turn, and the statements of its
block. -/
theorem inTurn_always {limits : Limits} (hl : 3 < limits.levels) (loc test brace : Location)
    (body : List Stmt) (store : Store) (ho : store.closed = false) (hp : store.printed = "")
    (hclear : (runStatement limits store (.always loc test brace body)).1
      ≠ .error (.fault .tooDeep loc)) :
    let p := inTurn limits store body
    let q := inTurn limits store [.always loc test brace body]
    p.result.mapError (Failure.relocate Location.forget)
        = q.result.mapError (Failure.relocate Location.forget) ∧
      completedIn limits store body = p.ended ∧
      p.printed.flatMap Bytes.ofString = q.printed.flatMap Bytes.ofString ∧
      p.store = { q.store with executed := p.store.executed } := by
  intro p q
  obtain ⟨hprinted, hresult, hstore⟩ := inTurn_singleton limits store (.always loc test brace body)
  obtain hdeep | ⟨halike, hcompleted, htrails, hempty⟩ :=
    runStatement_always hl loc test brace body ho hp
  · exact absurd hdeep hclear
  · refine ⟨?_, hcompleted, ?_, ?_⟩
    · rw [hresult, halike]
    · have hout := htrails.printed
      rw [hempty, String.append_empty] at hout
      rw [hprinted, List.flatMap_singleton, hout, Bytes.ofString_foldl]
      rfl
    · have hleft := htrails.rest
      rw [hempty] at hleft
      rw [hstore]
      exact hleft

/-- The same choice and the statements of its block up to their places, each in turn. -/
theorem inTurn_alike_always {limits : Limits} (hl : 3 < limits.levels) (loc test brace : Location)
    {stmts body : List Stmt}
    (h : stmts.map (Stmt.relocate Location.forget) = body.map (Stmt.relocate Location.forget))
    (store : Store) (ho : store.closed = false) (hp : store.printed = "")
    (hclear : (runStatement limits store (.always loc test brace body)).1
      ≠ .error (.fault .tooDeep loc)) :
    let p := inTurn limits store stmts
    let q := inTurn limits store [.always loc test brace body]
    p.result.mapError (Failure.relocate Location.forget)
        = q.result.mapError (Failure.relocate Location.forget) ∧
      p.ended = completedIn limits store body ∧
      p.printed.flatMap Bytes.ofString = q.printed.flatMap Bytes.ofString ∧
      Store.Alike p.store { q.store with executed := p.store.executed } := by
  intro p q
  obtain ⟨hresult, hcompleted, hwritten, hleft⟩ :=
    inTurn_always hl loc test brace body store ho hp hclear
  obtain ⟨hended, hprinted, hresult', halike⟩ :=
    Progress.mk.inj (inTurn_alike limits (s := store) rfl h)
  refine ⟨hresult'.trans hresult, hended.trans hcompleted.symm, ?_, ?_⟩
  · exact (congrArg (List.flatMap Bytes.ofString) hprinted).trans hwritten
  · have hexecuted : p.store.executed = (inTurn limits store body).store.executed :=
      Store.Alike.congr (fun s => s.executed) (fun _ _ => rfl) halike
    rw [hexecuted]
    exact halike.trans (congrArg (Store.relocate Location.forget) hleft)

end Session

/-! ## The two templates -/

theorem directiveEnd_spansOf (texts : List Bytes) : directiveEnd (spansOf texts) = 0 := by
  cases texts with
  | nil => rfl
  | cons s texts => rfl

theorem body_spansOf (path : String) (holding : Holding) (texts : List Bytes) :
    (Template.ofRaw path holding (spansOf texts)).placed.text = spansOf texts := by
  rw [Template.text_placed, Template.body_ofRaw, directiveEnd_spansOf, List.drop_zero]

theorem Rendering.phase_final_eq_done {ε : Type} {m : Markers} {body : Bytes} {ps : List Passage}
    {e : Ending ε} : (Rendering.final m body ps e).phase = .done ↔ e.stop? = none := by
  cases e with
  | finished last env => exact ⟨fun _ => rfl, fun _ => rfl⟩
  | stopped first opening reply stop =>
    rw [phase_final]
    cases stop <;> exact ⟨nofun, nofun⟩

/-- The render of spans, by the statements in turn. -/
theorem render_spans {path : String} {holding : Holding} {texts : List Bytes} {stmts : List Stmt}
    (h : Spans .standard (Template.ofRaw path holding (spansOf texts)).placed 0 stmts) :
    let render := RenderJob.fresh.render .session .standard (.ofRaw path holding (spansOf texts))
    let p := Session.inTurn .standard .initial stmts
    render.2.rendering.output = p.printed.flatMap Bytes.ofString ∧
      (render.2.rendering.phase = .done ↔ p.result = .ok ()) ∧
      render.2.rendering.scriptSpans.length = p.ended ∧
      Session.EndsBy path render.1 p.result ∧
      ((Session.start path).render (.ofRaw path holding (spansOf texts))).2.2.store = p.store := by
  intro render p
  let t : Template := .ofRaw path holding (spansOf texts)
  obtain ⟨ps, e, hseg, hlength, hout, henv, hend⟩ := h.segments path .initial
  have hrender : render = (e.stop?, ⟨.final .standard t.body ps e, some e.environment.close⟩) :=
    hseg.render_eq
  have hresult : e.stop? = none ↔ p.result = .ok () := by
    have hp : Session.EndsBy path e.stop? p.result := hend
    cases hresult : p.result with
    | error f =>
      rw [hresult] at hp
      obtain ⟨start, hstop⟩ := hp
      rw [hstop]
      exact ⟨nofun, nofun⟩
    | ok _ =>
      rw [hresult] at hp
      exact ⟨fun _ => rfl, fun _ => hp⟩
  refine ⟨?_, ?_, ?_, ?_, ?_⟩
  · exact (render_fresh t).2.1.trans (hseg.run_eq.2.1.trans hout)
  · rw [hrender]
    exact Rendering.phase_final_eq_done.trans hresult
  · rw [hrender, ← hlength]
    exact (congrArg List.length hseg.final.2.scriptSpans).trans (List.length_map _)
  · rw [hrender]
    exact hend
  · exact congrArg Session.store (hseg.run_eq.2.2.trans henv)

/-- The choice with the texts in its block is read from its span, if it does not nest too
deeply, and it is the one statement of the template. -/
theorem exists_span_always {limits : Limits} {texts : List Bytes} {stmts : List Stmt}
    (hwhole : List.Forall₂
      (fun s a => Session.parse limits (.ofBytes s) 0 = .ok (a, s.length)) texts stmts)
    {text : PlacedText}
    (ht : text.text.drop 0
      = Markers.standard.opener ++ (Reader.alwaysText texts ++ Markers.standard.closer))
    (hdeep : Session.parse limits text Markers.standard.opener.length ≠ .error .tooDeep) :
    ∃ loc test brace body,
      Session.parse limits text Markers.standard.opener.length = .ok (.always loc test brace body,
        Markers.standard.opener.length + (Reader.alwaysText texts).length) ∧
      Spans limits text 0 [.always loc test brace body] ∧
      stmts.map (Stmt.relocate Location.forget) = body.map (Stmt.relocate Location.forget) := by
  have hspells : List.Forall₂ (Reader.Spells Kind.names limits.nesting) texts stmts :=
    hwhole.imp fun _ _ h => Session.spells_of_parse h
  have hinside : text.text.drop Markers.standard.opener.length
      = Reader.alwaysText texts ++ Markers.standard.closer := by
    rw [← Nat.zero_add Markers.standard.opener.length]
    exact Bytes.drop_past ht
  have hclose : text.text.drop (Markers.standard.opener.length + (Reader.alwaysText texts).length)
      = Markers.standard.closer := Bytes.drop_past hinside
  have hnil : text.text.drop (Markers.standard.opener.length + (Reader.alwaysText texts).length
      + Markers.standard.closer.length) = [] :=
    Bytes.drop_past (hclose.trans (List.append_nil _).symm)
  have hcursor : (Cursor.ofText text.text Markers.standard.opener.length text.text.length
      (text.locate Markers.standard.opener.length)).rest
        = Reader.alwaysText texts ++ Markers.standard.closer := by
    rw [← hinside]
    exact Bytes.window_length ..
  obtain ⟨s, hs⟩ | ⟨loc, test, brace, body, s, hs, hend, hbody⟩ :=
    Reader.next_always hspells limits.nesting hcursor (.inr ⟨[], [], .nil, rfl⟩)
  · refine absurd ?_ hdeep
    unfold Session.parse
    simp only [hs]
  · have hparse : Session.parse limits text Markers.standard.opener.length
        = .ok (.always loc test brace body,
          Markers.standard.opener.length + (Reader.alwaysText texts).length) :=
      Session.parse_eq_ok.mpr ⟨s, hs, hend⟩
    refine ⟨loc, test, brace, body, hparse, ?_, hbody⟩
    refine .cons ⟨_, ht.symm⟩ ?_ ⟨[], ?_⟩ (.nil hnil)
    · rw [Nat.zero_add]
      exact hparse
    · rw [hclose, List.append_nil]

/-- **One statement per span is the same program as one block.**  Texts that are statements
by themselves may be the statements of spans, or of the block of a choice that always holds
in one span.  Where that one does not go too deep, both renders write the same bytes, and
both come to the end of the template or neither does.  As many statements end normally, so
that both fail at the same one, and then they fail for the same reason.  They leave the same
variables, tensors and functions, but for the places in these; only the number of statements
that have been run differs. -/
theorem render_as_block (path : String) (holding holding' : Holding) {texts : List Bytes}
    {stmts : List Stmt}
    (hwhole : List.Forall₂
      (fun s a => Session.parse .standard (.ofBytes s) 0 = .ok (a, s.length)) texts stmts)
    (hclear : (Session.start path).ClearAt
      (Template.ofRaw path holding' (spansOf [Reader.alwaysText texts])).placed
      Markers.standard.opener.length) :
    let spans := Template.ofRaw path holding (spansOf texts)
    let block := Template.ofRaw path holding' (spansOf [Reader.alwaysText texts])
    let apart := RenderJob.fresh.render .session .standard spans
    let whole := RenderJob.fresh.render .session .standard block
    let s := ((Session.start path).render spans).2.2
    let t := ((Session.start path).render block).2.2
    apart.2.rendering.output = whole.2.rendering.output ∧
      (apart.2.rendering.phase = .done ↔ whole.2.rendering.phase = .done) ∧
      (∃ x y : Except Session.Failure Unit,
        x.mapError (Session.Failure.relocate Location.forget)
            = y.mapError (Session.Failure.relocate Location.forget) ∧
          Session.EndsBy path apart.1 x ∧ Session.EndsBy path whole.1 y) ∧
      (∃ loc test brace body, Session.parse .standard block.placed Markers.standard.opener.length
          = .ok (.always loc test brace body,
            Markers.standard.opener.length + (Reader.alwaysText texts).length) ∧
        body.map (Stmt.relocate Location.forget) = stmts.map (Stmt.relocate Location.forget) ∧
        apart.2.rendering.scriptSpans.length = Session.completedIn .standard .initial body) ∧
      apart.2.environment = some s.close ∧ whole.2.environment = some t.close ∧
      s.store.scopes = t.store.scopes ∧ s.store.tensors = t.store.tensors ∧
      s.store.functions.map Prod.fst = t.store.functions.map Prod.fst ∧
      Store.Alike s.store { t.store with executed := s.store.executed } := by
  intro spans block apart whole s t
  -- the spans
  have happart : spans.placed.text.drop 0 = spansOf texts :=
    body_spansOf path holding texts
  obtain ⟨stmts', hspans, hstmts⟩ := exists_spans hwhole happart
  obtain ⟨hout, hphase, hcount, hend, hstore⟩ := render_spans hspans
  -- the block
  have hopen : block.placed.text.drop 0 = Markers.standard.opener
      ++ (Reader.alwaysText texts ++ Markers.standard.closer) := by
    refine (body_spansOf path holding' [Reader.alwaysText texts]).trans ?_
    rw [spansOf, List.flatMap_singleton]
  obtain ⟨loc, test, brace, body, hparse, hspan, hbody⟩ := exists_span_always hwhole hopen hclear.1
  obtain ⟨hout', hphase', -, hend', hstore'⟩ := render_spans hspan
  -- both are compared with the statements of the block in turn
  have hlevels : 3 < Limits.standard.levels := by decide
  obtain ⟨hsame, hended, hwritten, halike⟩ := Session.inTurn_alike_always hlevels loc test brace
    (hstmts.symm.trans hbody) .initial rfl rfl (hclear.2 _ _ hparse)
  generalize Session.inTurn .standard .initial stmts' = p at *
  generalize Session.inTurn .standard .initial [.always loc test brace body] = q at *
  have hdone : p.result = .ok () ↔ q.result = .ok () := by
    rw [← Session.mapError_eq_ok (Session.Failure.relocate Location.forget), hsame,
      Session.mapError_eq_ok]
  have hfinal : Store.Alike s.store { t.store with executed := s.store.executed } := by
    have hs : s.store = p.store := hstore
    have ht : t.store = q.store := hstore'
    rw [hs, ht]
    exact halike
  exact ⟨hout.trans (hwritten.trans hout'.symm), hphase.trans (hdone.trans hphase'.symm),
    ⟨p.result, q.result, hsame, hend, hend'⟩,
    ⟨loc, test, brace, body, hparse, hbody.symm, hcount.trans hended⟩, (render_fresh spans).2.2,
    (render_fresh block).2.2, hfinal.scopes, hfinal.tensors, hfinal.names, hfinal⟩

/-- A binding, a print and a break out of no loop: the last one fails in both renders, behind
what was printed. -/
theorem render_as_block_break :
    let texts : List Bytes := [[73, 78, 84, 58, 97, 61, 49], [80, 82, 73, 78, 84, 40, 97, 41],
      [66, 82, 69, 65, 75, 40, 49, 41]]
    let apart := RenderJob.fresh.render .session .standard (.ofRaw "t" .mapped (spansOf texts))
    let whole := RenderJob.fresh.render .session .standard
      (.ofRaw "t" .mapped (spansOf [Reader.alwaysText texts]))
    apart.2.rendering.output = [49] ∧ whole.2.rendering.output = [49] ∧
      apart.2.rendering.phase ≠ .done ∧ whole.2.rendering.phase ≠ .done := by
  intro texts apart whole
  obtain ⟨a, ha⟩ : ∃ a, Session.parse .standard (.ofBytes [73, 78, 84, 58, 97, 61, 49]) 0
      = .ok (a, 7) := Session.exists_of_map_parse (by decide +kernel)
  obtain ⟨b, hb⟩ : ∃ b, Session.parse .standard (.ofBytes [80, 82, 73, 78, 84, 40, 97, 41]) 0
      = .ok (b, 8) := Session.exists_of_map_parse (by decide +kernel)
  obtain ⟨c, hc⟩ : ∃ c, Session.parse .standard (.ofBytes [66, 82, 69, 65, 75, 40, 49, 41]) 0
      = .ok (c, 8) := Session.exists_of_map_parse (by decide +kernel)
  have hwhole : List.Forall₂
      (fun s a => Session.parse .standard (.ofBytes s) 0 = .ok (a, s.length)) texts [a, b, c] :=
    .cons ha (.cons hb (.cons hc .nil))
  have hclear : (Session.start "t").ClearAt
      (Template.ofRaw "t" .mapped (spansOf [Reader.alwaysText texts])).placed
      Markers.standard.opener.length := by decide +kernel
  have hwritten : whole.2.rendering.output = [49] := by decide +kernel
  have hfailed : whole.2.rendering.phase ≠ .done := by decide +kernel
  obtain ⟨hsame, hdone, -⟩ := render_as_block "t" .mapped .mapped hwhole hclear
  exact ⟨hsame.trans hwritten, hwritten, fun h => hfailed (hdone.mp h), hfailed⟩

end SpanScript
