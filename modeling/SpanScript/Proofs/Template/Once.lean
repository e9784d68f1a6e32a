import SpanScript.Proofs.Template.Account

/-!
# One environment for each render

A render asks a boundary for an environment, has its statements executed there, and has the
environment closed.  `Boundary.traced` lets each environment know all that has been asked
of it, from its creation on, so that what is left in the end tells the whole story of the
one environment that there is: it was created, it executed the statements of the
segmentation in order, and it was closed, once and after all of them.

The boundary is any boundary.  It may write what it likes and answer that a statement ended
anywhere; a boundary that raises an error is one whose answer escapes, and one that raises
an error of templates is one whose answer fails.

A job that has begun is told apart by its phase and its cursor.  Wherever a render is left,
the cursor perhaps still at the start, its phase is not the one that it began in:
`Rendering.begun_final`.

* `Segments.traced`: what is asked of an environment is what the segmentation says.
* `RenderJob.renders`: any number of renders, one after another.
* `renders_once`: the first one has the environment, and the others change nothing.
-/

namespace SpanScript

/-! ## What is asked of a boundary -/

/-- What a render asks of a boundary. -/
inductive Boundary.Call
  | create (path : String)
  | execute (offset : Nat)
  | close
  deriving DecidableEq, Repr

/-- A boundary whose environments keep what has been asked of them, in order. -/
def Boundary.traced {ε : Type} (b : Boundary ε) : Boundary (ε × List Boundary.Call) where
  create path := (b.create path, [.create path])
  execute env text offset :=
    let reply := b.execute env.1 text offset
    { environment := (reply.environment, env.2 ++ [.execute offset])
      written := reply.written
      outcome := reply.outcome }
  close env := (b.close env.1, env.2 ++ [.close])

/-- An ending whose environment has been asked for `calls`. -/
def Ending.traced {ε : Type} (calls : List Boundary.Call) :
    Ending ε → Ending (ε × List Boundary.Call)
  | finished last env => .finished last (env, calls)
  | stopped first opening reply stop =>
    .stopped first opening ⟨(reply.environment, calls), reply.written, reply.outcome⟩ stop

section

variable {ε : Type}

theorem Ending.stop?_traced (calls : List Boundary.Call) (e : Ending ε) :
    (e.traced calls).stop? = e.stop? := by
  cases e <;> rfl

theorem Ending.environment_traced (calls : List Boundary.Call) (e : Ending ε) :
    (e.traced calls).environment = (e.environment, calls) := by
  cases e <;> rfl

theorem Rendering.final_traced (m : Markers) (body : Bytes) (ps : List Passage) (e : Ending ε)
    (calls : List Boundary.Call) :
    Rendering.final m body ps (e.traced calls) = .final m body ps e := by
  cases e with
  | finished => rfl
  | stopped first opening reply stop => cases stop <;> rfl

/-- **An environment is asked for the statements of the segmentation**, whatever it was
asked for before. -/
theorem Segments.traced {b : Boundary ε} {m : Markers} {text : PlacedText} {first : Nat} {env : ε}
    {ps : List Passage} {e : Ending ε} (h : Segments b m text first env ps e) :
    ∀ calls : List Boundary.Call, Segments b.traced m text first (env, calls) ps
      (e.traced (calls ++ (ps.map (Passage.start m) ++ e.call m).map .execute)) := by
  induction h with
  | finished ha =>
    intro calls
    simp only [List.map_nil, Ending.call, List.append_nil]
    exact .finished ha
  | stopped hf hs =>
    intro calls
    exact .stopped (b := b.traced) hf hs
  | @passed p env env' ps e _ hx _ ih =>
    intro calls
    have hx' : b.traced.execute (env, calls) text (p.start m)
        = ⟨(env', calls ++ [.execute (p.start m)]), p.written, .ended p.stop⟩ := by
      simp only [Boundary.traced, hx]
    have hrest := ih (calls ++ [.execute (p.start m)])
    rw [List.append_assoc] at hrest
    exact .passed ‹_› hx' hrest

/-! ## A job that has begun -/

/-- **Every render leaves a mark**: the phase is not the one that it began in. -/
theorem Rendering.begun_final (m : Markers) (body : Bytes) (ps : List Passage) (e : Ending ε) :
    (Rendering.final m body ps e).phase ≠ .literal := by
  cases e with
  | finished => exact nofun
  | stopped first opening reply stop =>
    cases stop with
    | fault f => exact nofun
    | escaped | unfinished | reused => exact nofun

theorem Segments.stop?_ne_reused {b : Boundary ε} {m : Markers} {text : PlacedText} {first : Nat}
    {env : ε} {ps : List Passage} {e : Ending ε} (h : Segments b m text first env ps e) :
    e.stop? ≠ some .reused := by
  induction h with
  | finished => exact nofun
  | stopped _ hs =>
    intro he
    obtain rfl := Option.some.inj he
    generalize (b.execute _ _ _).outcome = outcome at hs
    cases hs
  | passed _ _ _ ih => exact ih

namespace RenderJob

theorem render_begun (b : Boundary ε) (m : Markers) (t : Template) {job : RenderJob ε}
    (h : job.rendering.phase ≠ .literal) : job.render b m t = (some .reused, job) := by
  rw [render, if_pos (.inl h)]

/-- A number of renders, one after another: what each of them comes to, and the job after
them. -/
def renders (b : Boundary ε) (m : Markers) (t : Template) :
    Nat → RenderJob ε → List (Option RenderStop) × RenderJob ε
  | 0, job => ([], job)
  | n + 1, job =>
    let (stop, job) := job.render b m t
    let (stops, job) := renders b m t n job
    (stop :: stops, job)

theorem renders_begun (b : Boundary ε) (m : Markers) (t : Template) {job : RenderJob ε}
    (h : job.rendering.phase ≠ .literal) : ∀ n : Nat,
      renders b m t n job = (List.replicate n (some .reused), job) := by
  intro n
  induction n with
  | zero => rfl
  | succ n ih => simp only [renders, render_begun b m t h, ih, List.replicate_succ]

end RenderJob

end

/-- **One environment for each render.**  A template is rendered any number of times by one
job, with any markers and any boundary.  The first render follows the segmentation of the
template.  It creates the environment, has in it the statements of the segmentation
executed, in order, and closes it, and nothing else has been asked of the environment when
all is over, however the first render was left.  Every other render is refused and leaves
the job as the first one has left it; it would be, with whatever boundary, markers and
template, so that no boundary is asked for anything. -/
theorem renders_once {ε : Type} (b : Boundary ε) (m : Markers) (t : Template) (again : Nat) :
    ∃ ps e, Segments b m t.placed 0 (b.create t.path) ps e ∧ e.stop? ≠ some .reused ∧
      let first := RenderJob.fresh.render b m t
      let all := RenderJob.fresh.renders b.traced m t (again + 1)
      all.1 = first.1 :: List.replicate again (some .reused) ∧ first.1 = e.stop? ∧
      all.2.rendering = first.2.rendering ∧
      all.2.environment = some (b.close e.environment,
        .create t.path :: (ps.map (Passage.start m) ++ e.call m).map .execute ++ [.close]) ∧
      ∀ b' m' t', all.2.render b' m' t' = (some .reused, all.2) := by
  obtain ⟨ps, e, h, -⟩ := run_segments b m t.placed .start (b.create t.path)
  let calls : List Boundary.Call :=
    .create t.path :: (ps.map (Passage.start m) ++ e.call m).map .execute ++ [.close]
  let done : RenderJob (ε × List Boundary.Call) :=
    ⟨.final m t.body ps e, some (b.close e.environment, calls)⟩
  have hbegun : done.rendering.phase ≠ .literal := Rendering.begun_final m t.body ps e
  have hfirst : RenderJob.fresh.render b.traced m t = (e.stop?, done) := by
    have h' := h.traced [.create t.path]
    rw [Segments.render_eq (b := b.traced) h', Rendering.final_traced, Ending.stop?_traced,
      Ending.environment_traced]
    rfl
  have hothers := RenderJob.renders_begun b.traced m t hbegun again
  have hall : RenderJob.fresh.renders b.traced m t (again + 1)
      = (e.stop? :: List.replicate again (some .reused), done) := by
    simp only [RenderJob.renders, hfirst, hothers]
  refine ⟨ps, e, h, h.stop?_ne_reused, ?_⟩
  dsimp only
  rw [hall, h.render_eq]
  exact ⟨rfl, rfl, rfl, rfl, fun b' m' t' => RenderJob.render_begun b' m' t' hbegun⟩

end SpanScript
