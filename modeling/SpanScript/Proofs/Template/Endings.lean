import SpanScript.Proofs.Session.Contained
import SpanScript.Proofs.Syntax.Overlong
import SpanScript.Proofs.Template.Account

/-!
# How a render ends

A render with the statement language runs to the end of its template, or stops with a
fault in the fatal phase, or is not followed to its end; unless it comes to a statement
that is not reported.  There are two such: one with an integer literal of too many digits,
which the parser cannot read, and a break out of more loops than there are, by a count
with too many digits to be printed.

* `ComesTo`: the statements that a render comes to, with the environments it has then;
  `RenderJob.render_eq_some_iff`: one of them is why it stops early.
* `Session.Unreported`: the statements that escape; `Session.escaped_iff`: no others do.
* `render_ends`: the render of any template, with any markers; `render_ends_literal` and
  `render_escapes_break` are one render that such a statement leaves, for each of the two.
-/

namespace SpanScript

/-! ## The statements that a render comes to -/

/-- A render that goes on from `first`, in `env`, comes to the statement at `start`, and
the environment then is `env'`. -/
inductive ComesTo {ε : Type} (b : Boundary ε) (m : Markers) (text : PlacedText) (start : Nat)
    (env' : ε) : Nat → ε → Prop
  | here {first opening : Nat} : Bytes.FirstAt m.opener text.text first opening →
      start = opening + m.opener.length → ComesTo b m text start env' first env'
  | later {p : Passage} {env next : ε} : p.Stands m text.text →
      b.execute env text (p.start m) = ⟨next, p.written, .ended p.stop⟩ →
      ComesTo b m text start env' (p.next m) next → ComesTo b m text start env' p.first env

section

variable {ε : Type} {b : Boundary ε} {m : Markers} {text : PlacedText} {start first : Nat}
  {env env' : ε}

/-- A statement that stops the render is the last one it comes to. -/
theorem ComesTo.segments (h : ComesTo b m text start env' first env) {stop : RenderStop}
    (hs : Stops m text.text start (b.execute env' text start).outcome stop) :
    ∃ ps first' opening, Segments b m text first env ps
      (.stopped first' opening (b.execute env' text start) stop) := by
  induction h with
  | @here first opening hf hstart =>
    subst hstart
    exact ⟨[], first, opening, .stopped hf hs⟩
  | @later p _ _ hp hx _ ih =>
    obtain ⟨ps, first', opening, hseg⟩ := ih
    exact ⟨p :: ps, first', opening, .passed hp hx hseg⟩

/-- The statement that stopped a render is one that it came to. -/
theorem Segments.comesTo {ps : List Passage} {e : Ending ε}
    (h : Segments b m text first env ps e) : ∀ {first' opening : Nat} {reply : Reply ε}
      {stop : RenderStop}, e = .stopped first' opening reply stop →
      ∃ start env', ComesTo b m text start env' first env ∧
        Stops m text.text start (b.execute env' text start).outcome stop := by
  induction h with
  | finished => intro _ _ _ _ he; cases he
  | stopped hf hs => intro _ _ _ _ he; cases he; exact ⟨_, _, .here hf rfl, hs⟩
  | passed hp hx _ ih =>
    intro _ _ _ _ he
    obtain ⟨start, env', hc, hs⟩ := ih he
    exact ⟨start, env', .later hp hx hc, hs⟩

/-- A render stops early exactly if it comes to a statement that stops it, and for the reason that
this statement gives. -/
theorem RenderJob.render_eq_some_iff {t : Template} {stop : RenderStop} :
    (RenderJob.fresh.render b m t).1 = some stop ↔
      ∃ start env', ComesTo b m t.placed start env' 0 (b.create t.path) ∧
        Stops m t.body start (b.execute env' t.placed start).outcome stop := by
  constructor
  · intro h
    obtain ⟨ps, e, hseg, -⟩ := run_segments b m t.placed .start (b.create t.path)
    have hstop : e.stop? = some stop := (congrArg Prod.fst (Segments.render_eq hseg)).symm.trans h
    cases e with
    | finished => cases hstop
    | stopped first opening reply stop' =>
      obtain rfl : stop' = stop := Option.some.inj hstop
      exact hseg.comesTo rfl
  · rintro ⟨start, env', hc, hs⟩
    obtain ⟨ps, first, opening, hseg⟩ := hc.segments hs
    exact congrArg Prod.fst (Segments.render_eq hseg)

end

/-- The sessions of a render are reachable. -/
theorem ComesTo.reachable {m : Markers} {text : PlacedText} {start first : Nat}
    {s s' : Session} (h : ComesTo .session m text start s' first s) (hs : s.Reachable) :
    s'.Reachable := by
  induction h with
  | here => exact hs
  | @later p s next _ hx _ ih =>
    refine ih ?_
    have hnext : next = (s.perform text (p.start m)).2.flush := congrArg Reply.environment hx.symm
    rw [hnext]
    exact (hs.perform text _).flush

/-! ## What escapes -/

namespace Session

/-- The statement at an offset cannot be parsed for a literal with too many digits, or ends
by leaving more loops than there are, by a count with too many digits. -/
def Unreported (s : Session) (text : PlacedText) (offset : Nat) : Prop :=
  (∃ n, parse s.limits text offset = .error (.literalTooLong n)) ∨
    ∃ stmt stop, parse s.limits text offset = .ok (stmt, stop) ∧ s.BreaksBeyond stmt

/-- **What escapes** is the statements that are not reported. -/
theorem escaped_iff {s : Session} (hs : s.Reachable) (text : PlacedText) (offset : Nat) :
    (∃ message, (s.perform text offset).1 = .escaped message) ↔ s.Unreported text offset := by
  unfold Unreported
  cases hp : parse s.limits text offset with
  | error f =>
    have ho : (s.perform text offset).1 = ofParseFault s.file offset f := by
      rw [perform, hp]
    rw [ho]
    cases f <;> simp [ofParseFault]
  | ok x =>
    obtain ⟨stmt, stop⟩ := x
    rw [perform_parsed hp]
    rcases runStatement_ends hs.sound.1 hs.sound.2 stmt with ⟨hb, hr⟩ | ⟨hb, hr⟩
    · rw [hr]
      exact ⟨fun _ => .inr ⟨stmt, stop, rfl, hb⟩, fun _ => ⟨_, rfl⟩⟩
    · constructor
      · rintro ⟨message, h⟩
        rcases hr.cases with hr | ⟨_, _, hr⟩ | hr <;> rw [hr] at h <;> cases h
      · rintro (⟨_, h⟩ | ⟨stmt', _, h, hb'⟩)
        · cases h
        · cases h
          exact absurd hb' hb

end Session

/-! ## How a render ends -/

/-- The phase that a render is left in, by what stopped it. -/
def RenderStop.finalPhase : RenderStop → Phase
  | fault _ => .fatal
  | _ => .script

theorem phase_final {ε : Type} (m : Markers) (body : Bytes) (ps : List Passage)
    (first opening : Nat) (reply : Reply ε) (stop : RenderStop) :
    (Rendering.final m body ps (.stopped first opening reply stop)).phase = stop.finalPhase := by
  cases stop <;> rfl

/-- **How a render ends.**  With any markers, the render of any template that comes to a
statement that is not reported stops there, in the phase of statements, with what escapes.
Every other render ends in the phase `done`, or stops with a fault in the phase `fatal`,
or is not followed to its end.  Every problem with the text of a statement but a literal
with too many digits is such a fault. -/
theorem render_ends (m : Markers) (t : Template) :
    let render := RenderJob.fresh.render .session m t
    let phase := render.2.rendering.phase
    let Comes := fun start s => ComesTo .session m t.placed start s 0 (Session.start t.path)
    (∀ start s, Comes start s → s.Unreported t.placed start →
      ∃ message, render.1 = some (.escaped message) ∧ phase = .script) ∧
    ((∀ start s, Comes start s → ¬ s.Unreported t.placed start) →
      render.1 = none ∧ phase = .done ∨ (∃ f, render.1 = some (.fault f) ∧ phase = .fatal) ∨
        render.1 = some .unfinished) ∧
    ∀ start s, Comes start s → ∀ f, Session.parse s.limits t.placed start = .error f →
      (∀ n, f ≠ .literalTooLong n) →
      ∃ message, Session.ofParseFault s.file start f = .failed message start ∧
        render.1 = some (.fault (.failed message start)) ∧ phase = .fatal := by
  intro render phase Comes
  have hstart := Session.reachable_start t.path
  -- a statement that stops the render decides how it ends
  have hstops {start : Nat} {s : Session} (hc : Comes start s) {stop : RenderStop}
      (hs : Stops m t.placed.text start (s.perform t.placed start).1 stop) :
      render.1 = some stop ∧ phase = stop.finalPhase := by
    obtain ⟨ps, first, opening, hseg⟩ := hc.segments hs
    have hr := Segments.render_eq hseg
    exact ⟨congrArg Prod.fst hr, (congrArg (·.2.rendering.phase) hr).trans (phase_final ..)⟩
  refine ⟨fun start s hc hu => ?_, fun hall => ?_, fun start s hc f hf hn => ?_⟩
  · obtain ⟨message, hm⟩ := (Session.escaped_iff (hc.reachable hstart) _ _).mpr hu
    exact ⟨message, hstops hc (hm ▸ .escaped)⟩
  · obtain ⟨ps, e, hseg, -⟩ := run_segments .session m t.placed .start (Session.start t.path)
    have hr := Segments.render_eq hseg
    cases e with
    | finished last env =>
      exact .inl ⟨congrArg Prod.fst hr, congrArg (·.2.rendering.phase) hr⟩
    | stopped first opening reply stop =>
      obtain ⟨start, s, hc, hs⟩ := hseg.comesTo rfl
      obtain ⟨hstop, hphase⟩ := hstops hc hs
      generalize ho : (Boundary.session.execute s t.placed start).outcome = o at hs
      cases stop with
      | fault f => exact .inr (.inl ⟨f, hstop, hphase⟩)
      | unfinished => exact .inr (.inr hstop)
      | escaped message =>
        refine absurd ?_ (hall start s hc)
        cases hs
        exact (Session.escaped_iff (hc.reachable hstart) _ _).mp ⟨message, ho⟩
      | reused => cases hs
  · have ho : (s.perform t.placed start).1 = Session.ofParseFault s.file start f := by
      rw [Session.perform, hf]
    obtain ⟨message, hm⟩ : ∃ message, Session.ofParseFault s.file start f
        = .failed message start := by
      cases f with
      | located problem loc => exact ⟨_, rfl⟩
      | tooDeep => exact ⟨_, rfl⟩
      | literalTooLong n => exact absurd rfl (hn n)
    exact ⟨message, hm, hstops hc ((ho.trans hm) ▸ .failed)⟩

/-- A literal of one digit too many is the statement of a span, and escapes. -/
theorem render_ends_literal :
    let T : Bytes := [123, 123] ++ (List.replicate 4301 49 ++ [125, 125])
    let render := RenderJob.fresh.render .session .standard (.ofRaw "t" .mapped T)
    ∃ message, render.1 = some (.escaped message) ∧ render.2.rendering.phase = .script := by
  intro T
  let t : Template := .ofRaw "t" .mapped T
  have hbody : t.placed.text = T := rfl
  have hopens : Bytes.FirstAt Markers.standard.opener T 0 0 :=
    ⟨Nat.le_refl _, List.prefix_append .., fun k _ hk => absurd hk (Nat.not_lt_zero k)⟩
  have hcomes : ComesTo .session .standard t.placed 2 (Session.start "t") 0 (Session.start "t") :=
    .here (hbody ▸ hopens) rfl
  have hstatement : t.placed.text.drop 2 = 49 :: List.replicate 4300 49 ++ [125, 125] := by
    rw [hbody, ← List.replicate_succ]
    rfl
  have hdigits : ∀ d ∈ (49 :: List.replicate 4300 49 : Bytes), Alphabet.isDigit d = true := by
    rw [← List.replicate_succ]
    intro d hd
    rw [List.eq_of_mem_replicate hd]
    rfl
  have hlength : (49 :: List.replicate 4300 49 : Bytes).length = 4301 := by
    rw [List.length_cons, List.length_replicate]
  have hnesting : Limits.standard.nesting = 982 + 2 := rfl
  have hparse := Session.parse_digits hnesting hstatement hdigits
    (fun d hd => by cases hd; exact ⟨rfl, by decide⟩) (by rw [hlength]; decide)
  exact (render_ends .standard t).1 2 (Session.start "t") hcomes (.inl ⟨_, hparse⟩)

/-- A break that leaves too many loops is the statement of a span, and escapes. -/
theorem render_escapes_break :
    let T : Bytes := [123, 123, 66, 82, 69, 65, 75, 40, 80, 79, 87, 40, 49, 48, 44, 32, 52, 51, 48,
      48, 41, 41, 125, 125]
    let render := RenderJob.fresh.render .session .standard (.ofRaw "t" .mapped T)
    render.1 = some (.escaped printTooLongMessage) ∧ render.2.rendering.phase = .script := by
  decide +kernel

end SpanScript
