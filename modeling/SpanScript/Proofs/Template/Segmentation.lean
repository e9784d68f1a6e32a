import SpanScript.Template.Rendering
import SpanScript.Proofs.Token.Trivia

/-!
# The segmentation of a template

`Rendering.run` finds its way through a template while it runs the statements.
Here the way itself is written down.  A `Passage` is a piece of literal text
with the statement behind it, closed properly; `Segments` cuts a template into
passages at the leftmost opening markers, asks the boundary for each statement,
and says how it comes to an end.

* `Segments.unique`: there is one segmentation at most.
* `run_segments`: there is one, and a run follows it to its end.

The boundary is any boundary: at each call it may write what it likes and answer
what it likes.
-/

namespace SpanScript

/-- A piece of a template that has been rendered: literal text from `first` up
to the opening marker at `opening`, and a statement that ends at `stop` and
wrote `written`, with its closing marker at `closing`. -/
structure Passage where
  first : Nat
  opening : Nat
  stop : Nat
  closing : Nat
  written : List String

namespace Passage

def start (m : Markers) (p : Passage) : Nat := p.opening + m.opener.length

/-- Where the text behind the passage begins. -/
def next (m : Markers) (p : Passage) : Nat := p.closing + m.closer.length

/-- The bytes of the template that the passage takes up. -/
def source (m : Markers) (body : Bytes) (p : Passage) : Bytes :=
  body.window p.first p.opening ++ m.opener ++ body.window (p.start m) p.stop
    ++ body.window p.stop p.closing ++ m.closer

/-- The bytes that rendering the passage writes. -/
def output (body : Bytes) (p : Passage) : Bytes :=
  body.window p.first p.opening ++ p.written.flatMap Bytes.ofString

/-- What a passage is in a template: the opening marker is the leftmost one,
the statement ends inside the template, and after it come trivia and the closing
marker, which is not trivia itself. -/
structure Stands (m : Markers) (body : Bytes) (p : Passage) : Prop where
  opens : Bytes.FirstAt m.opener body p.first p.opening
  start_lt_stop : p.start m < p.stop
  stop_le : p.stop ≤ body.length
  stop_le_closing : p.stop ≤ p.closing
  trivia : IsTrivia (body.window p.stop p.closing)
  closes : m.closer <+: body.drop p.closing
  closer_bare : ∀ b ∈ m.closer.head?, beginsTrivia b = false

end Passage

/-- Why a render stops at a statement that begins at `start`, by how the
statement ended. -/
inductive Stops (m : Markers) (body : Bytes) (start : Nat) : Outcome → RenderStop → Prop
  | failed {message : String} {offset : Int} :
      Stops m body start (.failed message offset) (.fault (.failed message offset))
  | escaped {message : String} : Stops m body start (.escaped message) (.escaped message)
  | unfinished : Stops m body start .unfinished .unfinished
  | invalidEnd {stop : Int} : ¬ (start < stop ∧ stop ≤ body.length) →
      Stops m body start (.ended stop) (.fault (.invalidEnd start stop))
  | unterminated {stop : Nat} : start < stop → stop ≤ body.length →
      ¬ m.closer <+: body.drop (pastTrivia body stop body.length) →
      Stops m body start (.ended stop) (.fault (.unterminated m.closer
        (pastTrivia body stop body.length)
        (Rendering.excerptAt m body (pastTrivia body stop body.length))))

/-- What a render is doing when it stops. -/
def RenderStop.phase : RenderStop → Phase
  | fault (.unterminated ..) => .verifyClose
  | _ => .script

/-- How a segmentation ends: with the literal text from `last` on, or at the
statement behind the opening marker at `opening`, with literal text from `first`
on before it. -/
inductive Ending (ε : Type)
  | finished (last : Nat) (environment : ε)
  | stopped (first opening : Nat) (reply : Reply ε) (stop : RenderStop)

namespace Ending

variable {ε : Type}

/-- Why the render stops early, if it does. -/
def stop? : Ending ε → Option RenderStop
  | finished .. => none
  | stopped _ _ _ stop => some stop

def environment : Ending ε → ε
  | finished _ env => env
  | stopped _ _ reply _ => reply.environment

end Ending

/-- The passages of a template from `first` on, with the environments that the
boundary makes of `env`, and how they end. -/
inductive Segments {ε : Type} (b : Boundary ε) (m : Markers) (text : PlacedText) :
    Nat → ε → List Passage → Ending ε → Prop
  | finished {first : Nat} {env : ε} : Bytes.AbsentFrom m.opener text.text first →
      Segments b m text first env [] (.finished first env)
  | stopped {first opening : Nat} {env : ε} {stop : RenderStop} :
      Bytes.FirstAt m.opener text.text first opening →
      Stops m text.text (opening + m.opener.length)
        (b.execute env text (opening + m.opener.length)).outcome stop →
      Segments b m text first env []
        (.stopped first opening (b.execute env text (opening + m.opener.length)) stop)
  | passed {p : Passage} {env env' : ε} {ps : List Passage} {e : Ending ε} :
      p.Stands m text.text →
      b.execute env text (p.start m) = ⟨env', p.written, .ended p.stop⟩ →
      Segments b m text (p.next m) env' ps e → Segments b m text p.first env (p :: ps) e

/-! ## One segmentation -/

theorem Passage.Stands.closing_eq {m : Markers} {body : Bytes} {p : Passage}
    (h : p.Stands m body) : p.closing = pastTrivia body p.stop body.length := by
  obtain ⟨b, c, hbc⟩ := List.exists_cons_of_ne_nil m.closer_ne_nil
  obtain ⟨rest, hr⟩ := h.closes
  have hd : body.drop p.stop = body.window p.stop p.closing ++ b :: (c ++ rest) := by
    rw [Bytes.drop_eq_window_append body h.stop_le_closing, ← hr, hbc, List.cons_append]
  rw [pastTrivia_eq_of_isTrivia h.trivia (h.closer_bare b (by rw [hbc]; rfl)) hd,
    Bytes.length_window]
  have := Bytes.add_length_le_of_prefix m.closer_ne_nil h.closes
  have := h.stop_le_closing
  omega

/-- A statement that is closed does not stop the render. -/
theorem Passage.Stands.not_stops {m : Markers} {body : Bytes} {p : Passage} {stop : RenderStop}
    (h : p.Stands m body) : ¬ Stops m body (p.start m) (.ended p.stop) stop := by
  have h1 := h.start_lt_stop
  have h2 := h.stop_le
  generalize ho : Outcome.ended (p.stop : Int) = o
  intro hs
  cases hs with
  | failed | escaped | unfinished => cases ho
  | invalidEnd hn =>
    cases ho
    exact hn (by omega)
  | @unterminated stop _ _ hc =>
    obtain rfl : p.stop = stop := by injection ho with ho; omega
    rw [← h.closing_eq] at hc
    exact hc h.closes

theorem Stops.unique {m : Markers} {body : Bytes} {start : Nat} {o : Outcome}
    {s s' : RenderStop} (h : Stops m body start o s) (h' : Stops m body start o s') : s' = s := by
  cases h with
  | failed => cases h'; rfl
  | escaped => cases h'; rfl
  | unfinished => cases h'; rfl
  | invalidEnd hn =>
    cases h' with
    | invalidEnd _ => rfl
    | unterminated h1 h2 _ => exact absurd ⟨by omega, by omega⟩ hn
  | @unterminated stop h1 h2 hc =>
    generalize ho : Outcome.ended (stop : Int) = o at h'
    cases h' with
    | failed | escaped | unfinished => cases ho
    | invalidEnd hn =>
      cases ho
      exact absurd ⟨by omega, by omega⟩ hn
    | @unterminated stop' _ _ _ =>
      obtain rfl : stop = stop' := by injection ho with ho; omega
      rfl

/-- **A template has one segmentation at most.** -/
theorem Segments.unique {ε : Type} {b : Boundary ε} {m : Markers} {text : PlacedText}
    {first : Nat} {env : ε} {ps ps' : List Passage} {e e' : Ending ε}
    (h : Segments b m text first env ps e) (h' : Segments b m text first env ps' e') :
    ps' = ps ∧ e' = e := by
  induction h generalizing ps' e' with
  | finished ha =>
    cases h' with
    | finished => exact ⟨rfl, rfl⟩
    | stopped hf _ => exact absurd ha hf.not_absentFrom
    | passed hp _ _ => exact absurd ha hp.opens.not_absentFrom
  | stopped hf hs =>
    cases h' with
    | finished ha => exact absurd ha hf.not_absentFrom
    | stopped hf' hs' =>
      obtain rfl := hf.unique hf'
      exact ⟨rfl, by rw [hs.unique hs']⟩
    | @passed p _ _ _ _ hp hx _ =>
      obtain rfl := hf.unique hp.opens
      rw [← Passage.start, hx] at hs
      exact absurd hs hp.not_stops
  | @passed p env env' ps e hp hx _ ih =>
    generalize hq : p.first = first at h'
    cases h' with
    | finished ha => exact absurd ha (hq ▸ hp.opens.not_absentFrom)
    | @stopped _ opening _ _ hf hs =>
      obtain rfl := hp.opens.unique (hq ▸ hf)
      rw [← Passage.start, hx] at hs
      exact absurd hs hp.not_stops
    | @passed q _ env'' _ _ hp' hx' hr =>
      have ho : p.opening = q.opening := hp.opens.unique (hq ▸ hp'.opens)
      have hst : p.start m = q.start m := by rw [Passage.start, ho, Passage.start]
      rw [← hst, hx] at hx'
      obtain ⟨rfl, hw, hs⟩ := Reply.mk.inj hx'
      have hs' : p.stop = q.stop := by injection hs with hs; omega
      have hc : p.closing = q.closing := by rw [hp.closing_eq, hp'.closing_eq, hs']
      obtain rfl : p = q := by
        cases p
        cases q
        simp only at hq ho hw hs' hc
        rw [hq, ho, hw, hs', hc]
      obtain ⟨rfl, rfl⟩ := ih hr
      exact ⟨rfl, rfl⟩

/-! ## A run follows its segmentation -/

namespace Rendering

/-- A render after one more passage. -/
def pass (m : Markers) (body : Bytes) (r : Rendering) (p : Passage) : Rendering :=
  let ran := (r.copy body p.first p.opening).write p.written
  { ran with
    phase := .literal
    scriptSpans := ran.scriptSpans ++ [(p.start m, p.stop)]
    cursor := p.next m }

/-- A render when it ends. -/
def settle {ε : Type} (body : Bytes) (r : Rendering) : Ending ε → Rendering
  | .finished last _ =>
    { r.copy body last body.length with phase := .done, cursor := body.length }
  | .stopped first opening reply stop =>
    { (r.copy body first opening).write reply.written with phase := stop.phase }

end Rendering

theorem closing_stands {m : Markers} {body : Bytes} {first opening : Nat} {stop : Int}
    (written : List String) (hf : Bytes.FirstAt m.opener body first opening)
    (hw : ((opening + m.opener.length : Nat) : Int) < stop ∧ stop ≤ body.length)
    (hc : m.closer <+: body.drop (pastTrivia body stop.toNat body.length)) :
    Passage.Stands m body
      ⟨first, opening, stop.toNat, pastTrivia body stop.toNat body.length, written⟩ := by
  have hne : body.drop (pastTrivia body stop.toNat body.length) ≠ [] := by
    intro h
    rw [h] at hc
    exact m.closer_ne_nil (List.prefix_nil.mp hc)
  refine ⟨hf, ?_, ?_, Trivia.le_pastTrivia _ _ _, isTrivia_window_pastTrivia hne, hc, ?_⟩
  · simp only [Passage.start]
    omega
  · simp only
    omega
  · intro b hb
    obtain ⟨rest, hr⟩ := hc
    obtain ⟨c, hbc⟩ := List.head?_eq_some_iff.mp hb
    rw [hbc, List.cons_append] at hr
    exact not_begins_of_drop_pastTrivia hr.symm

/-- **A run follows the segmentation.**  Whatever the boundary answers, the
template has a segmentation from the cursor on, and the run ends as it does. -/
theorem run_segments {ε : Type} (b : Boundary ε) (m : Markers) (text : PlacedText) :
    ∀ (r : Rendering) (env : ε), ∃ ps e, Segments b m text r.cursor env ps e ∧
      r.run b m text env = (e.stop?, (ps.foldl (Rendering.pass m text.text) r).settle text.text e,
        e.environment) := by
  intro r env
  induction hn : text.text.length - r.cursor using Nat.strongRecOn generalizing r env with
  | ind n ih =>
    rw [Rendering.run]
    split
    · next hf => exact ⟨[], _, .finished (Bytes.absentFrom_of_find m.opener_ne_nil hf), rfl⟩
    · next opening hf =>
      have hfirst := Bytes.firstAt_of_find hf
      have hstop : ∀ stop, Stops m text.text (opening + m.opener.length)
          (b.execute env text (opening + m.opener.length)).outcome stop →
          Segments b m text r.cursor env [] (.stopped r.cursor opening
            (b.execute env text (opening + m.opener.length)) stop) :=
        fun _ h => .stopped hfirst h
      dsimp only
      split
      · next ho => exact ⟨[], _, hstop _ (ho ▸ .failed), rfl⟩
      · next ho => exact ⟨[], _, hstop _ (ho ▸ .escaped), rfl⟩
      · next ho => exact ⟨[], _, hstop _ (ho ▸ .unfinished), rfl⟩
      · next stop ho =>
        split
        · next hw =>
          split
          · next hc =>
            have hp := closing_stands (b.execute env text (opening + m.opener.length)).written
              hfirst hw (List.isPrefixOf_iff_prefix.mp hc)
            generalize hq : Passage.mk _ _ _ _ _ = p at hp
            have hmove : text.text.length - p.next m < n := by
              have := Bytes.add_length_le_of_prefix m.closer_ne_nil hp.closes
              have := List.length_pos_iff.mpr m.closer_ne_nil
              have h1 := hp.opens.le
              have h2 := hp.start_lt_stop
              have h3 := hp.stop_le_closing
              rw [← hq] at h1 h2 h3 ⊢
              simp only [Passage.start, Passage.next] at h1 h2 h3 ⊢
              omega
            obtain ⟨ps, e, hseg, hrun⟩ := ih _ hmove (r.pass m text.text p)
              (b.execute env text (opening + m.opener.length)).environment rfl
            subst hq
            refine ⟨_ :: ps, e, .passed hp ?_ hseg, hrun⟩
            have hs : ((stop.toNat : Nat) : Int) = stop := Int.toNat_of_nonneg (by omega)
            simp only [hs, ← ho]
            rfl
          · next hc =>
            have hs : ((stop.toNat : Nat) : Int) = stop := Int.toNat_of_nonneg (by omega)
            refine ⟨[], _, hstop _ (ho ▸ hs ▸ .unterminated ?_ ?_ ?_), rfl⟩
            · omega
            · omega
            · exact fun h => hc (List.isPrefixOf_iff_prefix.mpr h)
        · next hw => exact ⟨[], _, hstop _ (ho ▸ .invalidEnd hw), rfl⟩

/-- How a run ends is told by any segmentation of the template. -/
theorem Segments.run {ε : Type} {b : Boundary ε} {m : Markers} {text : PlacedText} {r : Rendering}
    {env : ε} {ps : List Passage} {e : Ending ε} (h : Segments b m text r.cursor env ps e) :
    r.run b m text env = (e.stop?, (ps.foldl (Rendering.pass m text.text) r).settle text.text e,
      e.environment) := by
  obtain ⟨ps', e', h', hrun⟩ := run_segments b m text r env
  obtain ⟨rfl, rfl⟩ := h.unique h'
  exact hrun

/-- A run passes a statement that is closed. -/
theorem Rendering.run_passed {ε : Type} {b : Boundary ε} {m : Markers} {text : PlacedText}
    {r : Rendering} {env next : ε} {p : Passage} (hp : p.Stands m text.text)
    (hr : p.first = r.cursor)
    (hx : b.execute env text (p.start m) = ⟨next, p.written, .ended p.stop⟩) :
    r.run b m text env = (r.pass m text.text p).run b m text next := by
  obtain ⟨ps, e, hseg, hrun⟩ := run_segments b m text (r.pass m text.text p) next
  have hwhole : Segments b m text r.cursor env (p :: ps) e := hr ▸ .passed hp hx hseg
  rw [hrun, hwhole.run]
  rfl

end SpanScript
