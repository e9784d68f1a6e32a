import SpanScript.Proofs.Template.Segmentation

/-!
# Every byte is accounted for

What a segmentation says of the bytes of a template, and of what a render
records of them.

* `Segments.source_append`: the passages laid end to end, and the text behind
  them, are the template.
* `Segments.spans_ordered`: the recorded spans come one after another.
* `Segments.not_infix_literal`: no literal span holds an opening marker.
* `Segments.recording`: a boundary that keeps a list of its calls is called at
  the statements of the segmentation.
* `render_accounts`: all of it, for the render of a template with any markers
  and any boundary.
-/

namespace SpanScript

/-- A span as it is recorded: not at all, if it is empty. -/
def spanOf (s : Nat × Nat) : List (Nat × Nat) := if s.2 ≤ s.1 then [] else [s]

def Passage.literal (p : Passage) : Nat × Nat := (p.first, p.opening)

def Passage.script (m : Markers) (p : Passage) : Nat × Nat := (p.start m, p.stop)

namespace Ending

variable {ε : Type}

/-- Where the text begins that belongs to no passage. -/
def last : Ending ε → Nat
  | finished last _ => last
  | stopped first _ _ _ => first

/-- The literal text that belongs to no passage, in a template of a length. -/
def literal (length : Nat) : Ending ε → Nat × Nat
  | finished last _ => (last, length)
  | stopped first opening _ _ => (first, opening)

/-- The call that stopped the render. -/
def call (m : Markers) : Ending ε → List Nat
  | finished .. => []
  | stopped _ opening _ _ => [opening + m.opener.length]

end Ending

/-- All spans of a segmentation, in the order of the template. -/
def segmentSpans {ε : Type} (m : Markers) (length : Nat) (ps : List Passage) (e : Ending ε) :
    List (Nat × Nat) :=
  ps.flatMap (fun p => spanOf p.literal ++ [p.script m]) ++ spanOf (e.literal length)

/-! ## Spans and windows -/

theorem mem_spanOf {s t : Nat × Nat} (h : t ∈ spanOf s) : t = s ∧ s.1 < s.2 := by
  unfold spanOf at h
  split at h
  · simp at h
  · exact ⟨List.mem_singleton.mp h, by omega⟩

theorem pairwise_spanOf {r : Nat × Nat → Nat × Nat → Prop} (s : Nat × Nat) :
    (spanOf s).Pairwise r := by
  unfold spanOf
  split
  · exact .nil
  · exact List.pairwise_singleton _ _

theorem Rendering.copy_eq (r : Rendering) (body : Bytes) (a b : Nat) :
    r.copy body a b = { r with
      output := r.output ++ body.window a b
      literalSpans := r.literalSpans ++ spanOf (a, b) } := by
  unfold Rendering.copy spanOf
  split
  · next h => rw [Bytes.window_eq_nil body h, List.append_nil, List.append_nil]
  · rfl

theorem Passage.Stands.drop_first {m : Markers} {body : Bytes} {p : Passage}
    (h : p.Stands m body) : body.drop p.first = p.source m body ++ body.drop (p.next m) := by
  have h1 := Bytes.drop_eq_window_append body h.opens.le
  have h2 := Bytes.drop_eq_window_append body (Nat.le_add_right p.opening m.opener.length)
  have h3 := Bytes.drop_eq_window_append body (Nat.le_of_lt h.start_lt_stop)
  have h4 := Bytes.drop_eq_window_append body h.stop_le_closing
  have h5 := Bytes.drop_eq_window_append body (Nat.le_add_right p.closing m.closer.length)
  rw [Bytes.window_of_prefix h.opens.stands] at h2
  rw [Bytes.window_of_prefix h.closes] at h5
  rw [h1, h2, ← Passage.start, h3, h4, h5, Passage.source, Passage.next]
  simp only [List.append_assoc]

/-! ## What a segmentation says -/

section

variable {ε : Type} {b : Boundary ε} {m : Markers} {text : PlacedText} {first : Nat} {env : ε}
  {ps : List Passage} {e : Ending ε}

/-- The passages and what is left make up the template. -/
theorem Segments.source_append (h : Segments b m text first env ps e) :
    text.text.drop first = ps.flatMap (Passage.source m text.text) ++ text.text.drop e.last := by
  induction h with
  | finished => rfl
  | stopped => rfl
  | passed hp _ _ ih => rw [List.flatMap_cons, List.append_assoc, ← ih, ← hp.drop_first]

theorem Segments.stands (h : Segments b m text first env ps e) :
    ∀ p ∈ ps, p.Stands m text.text := by
  induction h with
  | finished => simp
  | stopped => simp
  | passed hp _ _ ih =>
    intro q hq
    rcases List.mem_cons.mp hq with rfl | hq
    · exact hp
    · exact ih q hq

/-- The spans come one after another, none of them empty. -/
theorem Segments.spans_ordered (h : Segments b m text first env ps e) :
    (segmentSpans m text.text.length ps e).Pairwise (fun a b => a.2 < b.1) ∧
      ∀ s ∈ segmentSpans m text.text.length ps e, first ≤ s.1 ∧ s.1 < s.2 := by
  unfold segmentSpans
  induction h with
  | finished =>
    refine ⟨pairwise_spanOf _, fun s hs => ?_⟩
    obtain ⟨rfl, hlt⟩ := mem_spanOf hs
    exact ⟨Nat.le_refl _, hlt⟩
  | stopped =>
    refine ⟨pairwise_spanOf _, fun s hs => ?_⟩
    obtain ⟨rfl, hlt⟩ := mem_spanOf hs
    exact ⟨Nat.le_refl _, hlt⟩
  | @passed p env env' ps e hp _ _ ih =>
    obtain ⟨ih1, ih2⟩ := ih
    have hopen : p.first ≤ p.opening := hp.opens.le
    have hstart : p.opening < p.start m :=
      Nat.lt_add_of_pos_right (List.length_pos_iff.mpr m.opener_ne_nil)
    have hstop := hp.start_lt_stop
    have hnext : p.stop < p.next m :=
      Nat.lt_of_le_of_lt hp.stop_le_closing
        (Nat.lt_add_of_pos_right (List.length_pos_iff.mpr m.closer_ne_nil))
    rw [List.flatMap_cons, List.append_assoc, List.append_assoc, List.singleton_append]
    constructor
    · refine List.pairwise_append.mpr ⟨pairwise_spanOf _, List.pairwise_cons.mpr ⟨?_, ih1⟩, ?_⟩
      · intro s hs
        exact Nat.lt_of_lt_of_le hnext (ih2 s hs).1
      · intro s hs t ht
        obtain ⟨rfl, -⟩ := mem_spanOf hs
        rcases List.mem_cons.mp ht with rfl | ht
        · exact hstart
        · have := (ih2 t ht).1
          simp only [Passage.literal]
          omega
    · intro s hs
      rcases List.mem_append.mp hs with hs | hs
      · obtain ⟨rfl, hlt⟩ := mem_spanOf hs
        exact ⟨Nat.le_refl _, hlt⟩
      · rcases List.mem_cons.mp hs with rfl | hs
        · exact ⟨by simp only [Passage.script]; omega, hstop⟩
        · have := ih2 s hs
          omega

/-- No literal text holds an opening marker. -/
theorem Segments.not_infix_literal (h : Segments b m text first env ps e) :
    ∀ s ∈ ps.map Passage.literal ++ [e.literal text.text.length],
      ¬ m.opener <:+: text.text.window s.1 s.2 := by
  induction h with
  | finished ha =>
    intro s hs
    obtain rfl := List.mem_singleton.mp hs
    exact ha.not_infix m.opener_ne_nil
  | stopped hf _ =>
    intro s hs
    obtain rfl := List.mem_singleton.mp hs
    exact hf.not_infix m.opener_ne_nil
  | passed hp _ _ ih =>
    intro s hs
    rw [List.map_cons, List.cons_append] at hs
    rcases List.mem_cons.mp hs with rfl | hs
    · exact hp.opens.not_infix m.opener_ne_nil
    · exact ih s hs

end

/-! ## The calls -/

/-- A boundary that keeps the offsets it is called at, in order. -/
def Boundary.recording {ε : Type} (b : Boundary ε) : Boundary (ε × List Nat) where
  create path := (b.create path, [])
  execute env text offset :=
    let reply := b.execute env.1 text offset
    { environment := (reply.environment, env.2 ++ [offset])
      written := reply.written
      outcome := reply.outcome }
  close env := (b.close env.1, env.2)

/-- An ending with the calls that were made. -/
def Ending.recording {ε : Type} (calls : List Nat) : Ending ε → Ending (ε × List Nat)
  | finished last env => .finished last (env, calls)
  | stopped first opening reply stop =>
    .stopped first opening
      ⟨(reply.environment, calls), reply.written, reply.outcome⟩ stop

/-- **The calls are those of the segmentation**, whatever was called before. -/
theorem Segments.recording {ε : Type} {b : Boundary ε} {m : Markers} {text : PlacedText}
    {first : Nat} {env : ε} {ps : List Passage} {e : Ending ε}
    (h : Segments b m text first env ps e) : ∀ calls : List Nat,
      Segments b.recording m text first (env, calls) ps
        (e.recording (calls ++ (ps.map (Passage.start m) ++ e.call m))) := by
  induction h with
  | finished ha =>
    intro calls
    simp only [List.map_nil, Ending.call, List.append_nil]
    exact .finished ha
  | stopped hf hs =>
    intro calls
    exact .stopped (b := b.recording) hf hs
  | @passed p env env' ps e hp hx _ ih =>
    intro calls
    have hx' : b.recording.execute (env, calls) text (p.start m)
        = ⟨(env', calls ++ [p.start m]), p.written, .ended p.stop⟩ := by
      simp only [Boundary.recording, hx]
    have := Segments.passed hp hx' (ih (calls ++ [p.start m]))
    rwa [List.append_assoc] at this

/-! ## What a render records -/

theorem Rendering.foldl_pass (m : Markers) (body : Bytes) : ∀ (ps : List Passage) (r : Rendering),
    (ps.foldl (Rendering.pass m body) r).literalSpans
        = r.literalSpans ++ ps.flatMap (fun p => spanOf p.literal) ∧
      (ps.foldl (Rendering.pass m body) r).scriptSpans
        = r.scriptSpans ++ ps.map (Passage.script m) ∧
      (ps.foldl (Rendering.pass m body) r).output
        = r.output ++ ps.flatMap (Passage.output body) := by
  intro ps
  induction ps with
  | nil => intro r; simp
  | cons p ps ih =>
    intro r
    obtain ⟨h1, h2, h3⟩ := ih (r.pass m body p)
    rw [List.foldl_cons, h1, h2, h3]
    simp only [Rendering.pass, Rendering.write, Rendering.copy_eq, List.flatMap_cons, List.map_cons,
      List.append_assoc, Passage.literal, Passage.script, Passage.output, List.singleton_append,
      true_and]

theorem Segments.cursor_foldl {ε : Type} {b : Boundary ε} {m : Markers} {text : PlacedText}
    {first : Nat} {env : ε} {ps : List Passage} {e : Ending ε}
    (h : Segments b m text first env ps e) : ∀ r : Rendering, r.cursor = first →
      (ps.foldl (Rendering.pass m text.text) r).cursor = e.last := by
  induction h with
  | finished => exact fun _ hr => hr
  | stopped => exact fun _ hr => hr
  | passed _ _ _ ih => exact fun r _ => ih (r.pass m text.text _) rfl

/-- What a render leaves behind that went along passages to their end. -/
structure Finished (m : Markers) (body : Bytes) (ps : List Passage) (last : Nat)
    (r : Rendering) : Prop where
  phase : r.phase = .done
  cursor : r.cursor = body.length
  source : body = ps.flatMap (Passage.source m body) ++ body.window last body.length
  output : r.output = ps.flatMap (Passage.output body) ++ body.window last body.length

/-- What a render leaves behind that was stopped by a statement, behind the
opening marker at `opening`. -/
structure Stopped (m : Markers) (body : Bytes) (ps : List Passage) (first opening : Nat)
    (written : List String) (stop : RenderStop) (r : Rendering) : Prop where
  phase : r.phase = if stop matches .fault _ then .fatal else .script
  cursor : r.cursor = first
  source : body.take (opening + m.opener.length)
    = ps.flatMap (Passage.source m body) ++ body.window first opening ++ m.opener
  output : r.output = ps.flatMap (Passage.output body) ++ body.window first opening
    ++ written.flatMap Bytes.ofString

/-- What a render leaves behind, by how its segmentation ends. -/
def Leaves {ε : Type} (m : Markers) (body : Bytes) (ps : List Passage) (r : Rendering) :
    Ending ε → Prop
  | .finished last _ => Finished m body ps last r
  | .stopped first opening reply stop => Stopped m body ps first opening reply.written stop r

/-- What a render records: the literal spans and the script spans of its
segmentation, all of them in order and apart, and no literal one with an opening
marker in it. -/
structure Records {ε : Type} (m : Markers) (body : Bytes) (ps : List Passage) (e : Ending ε)
    (r : Rendering) : Prop where
  literalSpans : r.literalSpans
    = ps.flatMap (fun p => spanOf p.literal) ++ spanOf (e.literal body.length)
  scriptSpans : r.scriptSpans = ps.map (Passage.script m)
  all : (r.literalSpans ++ r.scriptSpans).Perm (segmentSpans m body.length ps e)
  ordered : (segmentSpans m body.length ps e).Pairwise fun s t => s.2 < t.1
  nonempty : ∀ s ∈ segmentSpans m body.length ps e, s.1 < s.2
  markerFree : ∀ s ∈ r.literalSpans, ¬ m.opener <:+: body.window s.1 s.2

theorem segmentSpans_perm {ε : Type} (m : Markers) (length : Nat) (e : Ending ε) :
    ∀ ps : List Passage,
      (ps.flatMap (fun p => spanOf p.literal) ++ spanOf (e.literal length)
        ++ ps.map (Passage.script m)).Perm (segmentSpans m length ps e) := by
  intro ps
  induction ps with
  | nil => rw [List.map_nil, List.append_nil]; exact .refl _
  | cons p ps ih =>
    unfold segmentSpans at ih ⊢
    simp only [List.flatMap_cons, List.map_cons, List.append_assoc, List.singleton_append] at ih ⊢
    refine .append_left _ (.trans ?_ (.cons _ ih))
    rw [← List.append_assoc, ← List.append_assoc]
    exact List.perm_middle

theorem Segments.records {ε : Type} {b : Boundary ε} {m : Markers} {text : PlacedText} {env : ε}
    {ps : List Passage} {e : Ending ε} {r : Rendering} (h : Segments b m text 0 env ps e)
    (hl : r.literalSpans = ps.flatMap (fun p => spanOf p.literal)
      ++ spanOf (e.literal text.text.length))
    (hs : r.scriptSpans = ps.map (Passage.script m)) : Records m text.text ps e r := by
  refine ⟨hl, hs, ?_, h.spans_ordered.1, fun s hs => (h.spans_ordered.2 s hs).2, fun s hs => ?_⟩
  · rw [hl, hs]
    exact segmentSpans_perm _ _ _ _
  · refine h.not_infix_literal s ?_
    rw [hl] at hs
    rcases List.mem_append.mp hs with hs | hs
    · obtain ⟨p, hp, hsp⟩ := List.mem_flatMap.mp hs
      rw [(mem_spanOf hsp).1]
      exact List.mem_append_left _ (List.mem_map_of_mem hp)
    · rw [(mem_spanOf hs).1]
      exact List.mem_append_right _ (List.mem_singleton_self _)

/-- A render that went along passages to an ending, when it is over. -/
def Rendering.final {ε : Type} (m : Markers) (body : Bytes) (ps : List Passage) (e : Ending ε) :
    Rendering :=
  let r := (ps.foldl (Rendering.pass m body) .start).settle body e
  match e with
  | .stopped _ _ _ (.fault _) => { r with phase := .fatal }
  | _ => r

theorem Segments.render_eq {ε : Type} {b : Boundary ε} {m : Markers} {t : Template}
    {ps : List Passage} {e : Ending ε} (h : Segments b m t.placed 0 (b.create t.path) ps e) :
    RenderJob.fresh.render b m t
      = (e.stop?, ⟨.final m t.body ps e, some (b.close e.environment)⟩) := by
  rw [RenderJob.render, if_neg (by simp [RenderJob.fresh, Rendering.start])]
  simp only [RenderJob.fresh, Segments.run (r := .start) h]
  cases e with
  | finished last env => rfl
  | stopped first opening reply stop => cases stop <;> rfl

theorem Segments.opens {ε : Type} {b : Boundary ε} {m : Markers} {text : PlacedText}
    {first : Nat} {env : ε} {ps : List Passage} {e : Ending ε}
    (h : Segments b m text first env ps e) : ∀ {first' opening : Nat} {reply : Reply ε}
      {stop : RenderStop}, e = .stopped first' opening reply stop →
      Bytes.FirstAt m.opener text.text first' opening := by
  induction h with
  | finished => intro _ _ _ _ he; cases he
  | stopped hf _ => intro _ _ _ _ he; cases he; exact hf
  | passed _ _ _ ih => exact ih

/-- The template up to and with the opening marker of the statement that
stopped the render. -/
theorem Segments.take_opening {ε : Type} {b : Boundary ε} {m : Markers} {text : PlacedText}
    {env : ε} {ps : List Passage} {first opening : Nat} {reply : Reply ε} {stop : RenderStop}
    (h : Segments b m text 0 env ps (.stopped first opening reply stop)) :
    text.text.take (opening + m.opener.length)
      = ps.flatMap (Passage.source m text.text) ++ text.text.window first opening ++ m.opener := by
  have ho := h.opens rfl
  have h1 := h.source_append
  have h2 := Bytes.drop_eq_window_append text.text ho.le
  have h3 := Bytes.drop_eq_window_append text.text (Nat.le_add_right opening m.opener.length)
  rw [Bytes.window_of_prefix ho.stands] at h3
  rw [List.drop_zero, Ending.last, h2, h3, ← List.append_assoc, ← List.append_assoc] at h1
  have hlen := congrArg List.length h1
  have hle := Bytes.add_length_le_of_prefix m.opener_ne_nil ho.stands
  rw [List.length_append, List.length_drop] at hlen
  conv_lhs => rw [h1]
  exact List.take_left' (by omega)

theorem Segments.final {ε : Type} {b : Boundary ε} {m : Markers} {text : PlacedText} {env : ε}
    {ps : List Passage} {e : Ending ε} (h : Segments b m text 0 env ps e) :
    Leaves m text.text ps (.final m text.text ps e) e ∧
      Records m text.text ps e (.final m text.text ps e) := by
  obtain ⟨hl, hs, ho⟩ := Rendering.foldl_pass m text.text ps .start
  have hc := h.cursor_foldl .start rfl
  have hsrc := h.source_append
  rw [List.drop_zero] at hsrc
  cases e with
  | finished last env' =>
    refine ⟨⟨rfl, rfl, ?_, ?_⟩, h.records ?_ ?_⟩
    · rw [Bytes.window_length]
      exact hsrc
    · simp only [Rendering.final, Rendering.settle, Rendering.copy_eq, ho]
      rfl
    · simp only [Rendering.final, Rendering.settle, Rendering.copy_eq, hl]
      rfl
    · simp only [Rendering.final, Rendering.settle, Rendering.copy_eq, hs]
      rfl
  | stopped first opening reply stop =>
    -- only the phase depends on why the render stopped
    have hr : ∃ phase, phase = (if stop matches .fault _ then Phase.fatal else .script) ∧
        Rendering.final m text.text ps (.stopped first opening reply stop)
          = { ((ps.foldl (Rendering.pass m text.text) .start).copy text.text first opening).write
                reply.written with phase := phase } := by
      cases stop <;> exact ⟨_, rfl, rfl⟩
    obtain ⟨phase, hp, hr⟩ := hr
    rw [hr]
    refine ⟨⟨hp, ?_, h.take_opening, ?_⟩, h.records ?_ ?_⟩
    · simp only [Rendering.write, Rendering.copy_eq]
      exact hc
    · simp only [Rendering.write, Rendering.copy_eq, ho]
      rfl
    · simp only [Rendering.write, Rendering.copy_eq, hl]
      rfl
    · simp only [Rendering.write, Rendering.copy_eq, hs]
      rfl

theorem Rendering.final_recording {ε : Type} (m : Markers) (body : Bytes) (ps : List Passage)
    (e : Ending ε) (calls : List Nat) :
    Rendering.final m body ps (e.recording calls) = .final m body ps e := by
  cases e with
  | finished => rfl
  | stopped first opening reply stop => cases stop <;> rfl

/-- **Every byte is accounted for.**  A template has one segmentation, with any
markers and any boundary; its render makes the calls of that segmentation, stops
or ends as it does, and leaves behind the spans and the bytes that belong to
it. -/
theorem render_accounts {ε : Type} (b : Boundary ε) (m : Markers) (t : Template) :
    ∃ (ps : List Passage) (e : Ending ε) (r : Rendering),
      (Segments b m t.placed 0 (b.create t.path) ps e ∧
        ∀ ps' e', Segments b m t.placed 0 (b.create t.path) ps' e' → ps' = ps ∧ e' = e) ∧
      RenderJob.fresh.render b m t = (e.stop?, ⟨r, some (b.close e.environment)⟩) ∧
      RenderJob.fresh.render b.recording m t
        = (e.stop?, ⟨r, some (b.close e.environment, ps.map (Passage.start m) ++ e.call m)⟩) ∧
      Leaves m t.body ps r e ∧ Records m t.body ps e r := by
  obtain ⟨ps, e, h, -⟩ := run_segments b m t.placed .start (b.create t.path)
  have h' := h.recording []
  have hr : RenderJob.fresh.render b.recording m t = (e.stop?, ⟨.final m t.body ps e,
      some (b.close e.environment, ps.map (Passage.start m) ++ e.call m)⟩) := by
    rw [Segments.render_eq (b := b.recording) h', Rendering.final_recording]
    cases e <;> rfl
  exact ⟨ps, e, _, ⟨h, fun _ _ h'' => h.unique h''⟩, h.render_eq, hr, h.final.1, h.final.2⟩

end SpanScript
