import SpanScript.Proofs.Template.Body
import SpanScript.Proofs.Template.Shift

/-!
# Templates laid end to end

A template that renders to its end may be followed by another one: the two are rendered
as the first, and then the second in the environment that the first has left.

A statement of the first template ends before its closing marker, and what comes behind
that marker is not part of its parse, so the passages of the first template stand in the
whole as well (`Segments.append`).  The passages of the second are moved by its length
(`Segments.shift`); the statements in them are at other places, which no statement looks
at.

* `perform_local`: a session does not look behind a closing marker.
* `render_append`: the render of two templates laid end to end.
-/

namespace SpanScript

/-! ## What lies behind a closing marker -/

namespace Session

theorem parse_local {limits : Limits} {text text' : PlacedText} {offset stop : Nat} {stmt : Stmt}
    (h : parse limits text offset = .ok (stmt, stop))
    (hl : text'.locate offset = text.locate offset)
    (ht : text'.text.take stop = text.text.take stop) (hr : Closing (text'.text.drop stop)) :
    parse limits text' offset = .ok (stmt, stop) := by
  obtain ⟨r, hn, hend⟩ := parse_eq_ok.mp h
  obtain ⟨τ, hne, hreads, he, hτ⟩ := Reader.next_tokens hn
  have hstop : stop = r.cursor.offset := hend.symm.trans he
  rw [hstop] at ht hr ⊢
  have hreads' := Reader.reads_ofText_exchange hreads hne ht hr.neutral
  obtain ⟨t, d, hd, hk⟩ := next_of_closing
    (c := ⟨text'.text.drop r.cursor.offset, r.cursor.offset, r.cursor.location⟩) hr
  obtain ⟨r', h1, h2⟩ := hτ hreads' ⟨d, hd⟩ hk
  rw [← hl] at h1
  exact parse_eq_ok.mpr ⟨r', h1, h2⟩

/-- **A session does not look behind a closing marker.** -/
theorem perform_local {s : Session} {text : PlacedText} (text' : PlacedText)
    {offset stop : Nat} (h : (s.perform text offset).1 = .ended stop)
    (hl : text'.locate offset = text.locate offset)
    (ht : text'.text.take stop = text.text.take stop) (hr : Closing (text'.text.drop stop)) :
    s.perform text' offset = s.perform text offset := by
  unfold perform at h ⊢
  cases hp : parse s.limits text offset with
  | error x => rw [hp] at h; cases x <;> cases h
  | ok x =>
    obtain ⟨stmt, e⟩ := x
    rw [hp] at h
    have he : e = stop := by
      simp only at h
      split at h
      · injection h with h
        omega
      · next x _ _ => cases x <;> cases h
    subst he
    rw [parse_local hp hl ht hr]

end Session

/-! ## The passages of the first template -/

section

variable {ε : Type} {b : Boundary ε} {m : Markers} {text text' : PlacedText} {bs : Bytes}
  {first last : Nat} {env env' : ε} {ps qs : List Passage} {e : Ending ε}

theorem Passage.Stands.next_le {as : Bytes} {p : Passage} (h : p.Stands m as) :
    p.next m ≤ as.length := Bytes.add_length_le_of_prefix m.closer_ne_nil h.closes

theorem Passage.Stands.opening_le {as : Bytes} {p : Passage} (h : p.Stands m as) :
    p.opening ≤ as.length :=
  Nat.le_of_add_right_le (Bytes.add_length_le_of_prefix m.opener_ne_nil h.opens.stands)

theorem Passage.Stands.append {as : Bytes} {p : Passage} (h : p.Stands m as) (bs : Bytes) :
    p.Stands m (as ++ bs) where
  opens := h.opens.append m.opener_ne_nil bs
  start_lt_stop := h.start_lt_stop
  stop_le := by
    rw [List.length_append]
    exact Nat.le_add_right_of_le h.stop_le
  stop_le_closing := h.stop_le_closing
  trivia := by
    rw [Bytes.window_append_left as bs (Nat.le_of_add_right_le h.next_le)]
    exact h.trivia
  closes := (Bytes.prefix_drop_append_left h.next_le).mpr h.closes
  closer_bare := h.closer_bare

theorem Passage.Stands.output_append {as : Bytes} {p : Passage} (h : p.Stands m as)
    (bs : Bytes) : p.output (as ++ bs) = p.output as := by
  rw [Passage.output, Passage.output, Bytes.window_append_left as bs h.opening_le]

/-- A boundary answers as before for the passages of a template, when bytes come behind
it: then they are passages of the whole. -/
theorem Segments.append (ht : text'.text = text.text ++ bs)
    (hb : ∀ {p : Passage} {env env' : ε}, p.Stands m text.text →
      b.execute env text (p.start m) = ⟨env', p.written, .ended p.stop⟩ →
      b.execute env text' (p.start m) = ⟨env', p.written, .ended p.stop⟩)
    (h : Segments b m text first env ps (.finished last env'))
    (h' : Segments b m text' last env' qs e) : Segments b m text' first env (ps ++ qs) e := by
  generalize he : Ending.finished last env' = e' at h
  induction h with
  | finished => cases he; exact h'
  | stopped => cases he
  | passed hp hx _ ih => exact .passed (ht ▸ hp.append bs) (hb hp hx) (ih he)

theorem Segments.absentFrom (h : Segments b m text first env ps (.finished last env')) :
    Bytes.AbsentFrom m.opener text.text last := by
  generalize he : Ending.finished last env' = e' at h
  induction h with
  | finished ha => cases he; exact ha
  | stopped => cases he
  | passed _ _ _ ih => exact ih he

theorem Segments.last_le (h : Segments b m text first env ps e)
    (hf : first ≤ text.text.length) : e.last ≤ text.text.length := by
  induction h with
  | finished => exact hf
  | stopped => exact hf
  | passed hp _ _ ih => exact ih hp.next_le

/-- **Two segmentations laid end to end**, the second in the environment that the first
has left, are one. -/
theorem Segments.join {A : ε → ε → Prop} (hA : ∀ env, A env env) (hb : b.ShiftsAlong A)
    {text₁ text₂ : PlacedText} (ht : text.text = text₁.text ++ text₂.text)
    (hx : ∀ {p : Passage} {env env' : ε}, p.Stands m text₁.text →
      b.execute env text₁ (p.start m) = ⟨env', p.written, .ended p.stop⟩ →
      b.execute env text (p.start m) = ⟨env', p.written, .ended p.stop⟩)
    (hj : ¬ Bytes.Straddles m.opener text₁.text text₂.text)
    (h₁ : Segments b m text₁ 0 env ps (.finished last env'))
    (h₂ : Segments b m text₂ 0 env' qs e) :
    ∃ rs e', Segments b m text 0 env rs e' ∧ Ending.Shifted A text₁.text.length e e' ∧
      segmentsOutput text.text rs e'
        = segmentsOutput text₁.text ps (.finished last env') ++ segmentsOutput text₂.text qs e := by
  have hlast : last ≤ 0 + text₁.text.length := by
    rw [Nat.zero_add]
    exact h₁.last_le (Nat.zero_le _)
  obtain ⟨qs', e', h₂', he, hout⟩ := h₂.shift hb ht (hA env') hlast fun k h1 h2 =>
    h₁.absentFrom.append hj k h1 (by omega)
  refine ⟨ps ++ qs', e', h₁.append ht hx h₂', he, ?_⟩
  have hps : ps.flatMap (Passage.output text.text) = ps.flatMap (Passage.output text₁.text) :=
    List.flatMap_congr fun p hp => ht ▸ (h₁.stands p hp).output_append text₂.text
  unfold segmentsOutput at hout ⊢
  rw [List.flatMap_append, List.append_assoc, hout, hps, Nat.zero_add, ht,
    Bytes.window_append_left _ _ (Nat.le_refl _)]
  simp only [Ending.output, List.append_assoc]

end

/-! ## The statement language -/

/-- Renders a template with the statement language and the standard markers, in a
session that may have run statements before. -/
def Session.render (s : Session) (t : Template) : Option RenderStop × Rendering × Session :=
  Rendering.run .session .standard t.placed .start s

/-- A job renders in a new session, and closes it in the end. -/
theorem render_fresh (t : Template) :
    (RenderJob.fresh.render .session .standard t).1 = ((Session.start t.path).render t).1 ∧
      (RenderJob.fresh.render .session .standard t).2.rendering.output
        = ((Session.start t.path).render t).2.1.output ∧
      (RenderJob.fresh.render .session .standard t).2.environment
        = some ((Session.start t.path).render t).2.2.close := by
  rw [RenderJob.render, if_neg (by simp [RenderJob.fresh, Rendering.start])]
  unfold Session.render
  show _ ∧ _ ∧ _ = some ((Rendering.run .session .standard t.placed .start
    (Session.start t.path)).2.2.close)
  simp only [RenderJob.fresh, Boundary.session]
  rcases Rendering.run _ _ t.placed Rendering.start (Session.start t.path) with
    ⟨_ | stop, r, env⟩
  · exact ⟨rfl, rfl, rfl⟩
  · cases stop <;> exact ⟨rfl, rfl, rfl⟩

theorem shiftsAlong_session : Boundary.session.ShiftsAlong Session.Alike :=
  fun _ _ _ _ _ _ hs ht => execute_shifted hs ht

theorem Segments.execute_append {path path' : String} {holding holding' : Holding} {as bs : Bytes}
    (hd : directiveEnd (as ++ bs) = directiveEnd as) {p : Passage} {env env' : Session}
    (hp : p.Stands .standard (Template.ofRaw path' holding' as).placed.text)
    (hx : Boundary.session.execute env (Template.ofRaw path' holding' as).placed
      (p.start .standard) = ⟨env', p.written, .ended p.stop⟩) :
    Boundary.session.execute env (Template.ofRaw path holding (as ++ bs)).placed
      (p.start .standard) = ⟨env', p.written, .ended p.stop⟩ := by
  have hbody := Template.body_append path path' holding holding' hd
  rw [Template.text_placed] at hp
  have hlocal := Session.perform_local (Template.ofRaw path holding (as ++ bs)).placed
    (congrArg Reply.outcome hx)
    (Template.locate_append path path' holding holding' hd
      (Nat.le_trans (Nat.le_of_lt hp.start_lt_stop) hp.stop_le)) ?_ ?_
  · rw [← hx]
    simp only [Boundary.session, hlocal]
  · rw [Template.text_placed, Template.text_placed, hbody,
      List.take_append_of_le_length hp.stop_le]
  · rw [Template.text_placed, hbody]
    have happ := hp.append bs
    obtain ⟨rest, hrest⟩ := happ.closes
    refine .inr ⟨_, rest, happ.trivia, ?_⟩
    rw [Bytes.drop_eq_window_append _ happ.stop_le_closing, ← hrest]
    rfl

/-- No marker stands across the joint of the logical bytes, if none does across the joint
of the files. -/
theorem not_straddles_body {needle as bs : Bytes} (h : ¬ Bytes.Straddles needle as bs) :
    ¬ Bytes.Straddles needle (as.drop (directiveEnd as)) bs := by
  rintro ⟨k, h1, h2, h3⟩
  have hle := directiveEnd_le as
  rw [List.length_drop] at h1 h2
  refine h ⟨directiveEnd as + k, by omega, by omega, ?_⟩
  rwa [← List.drop_append_of_le_length hle, List.drop_drop] at h3

theorem Session.exists_segments (s : Session) (t : Template) :
    ∃ ps e, Segments .session .standard t.placed 0 s ps e ∧ (s.render t).1 = e.stop? ∧
      (s.render t).2.1.output = segmentsOutput t.body ps e ∧
      (s.render t).2.2 = e.environment := by
  obtain ⟨ps, e, h, -⟩ := run_segments .session .standard t.placed .start s
  exact ⟨ps, e, h, h.run_eq⟩

/-- Two templates laid end to end, in any session. -/
theorem Session.render_joined (s : Session) (path path₁ path₂ : String)
    (holding holding₁ holding₂ : Holding) {T₁ T₂ : Bytes}
    (hd : directiveEnd (T₁ ++ T₂) = directiveEnd T₁) (hd₂ : directiveEnd T₂ = 0)
    (hj : ¬ Bytes.Straddles Markers.standard.opener T₁ T₂)
    (hdone : (s.render (.ofRaw path₁ holding₁ T₁)).1 = none) :
    let s₁ := (s.render (.ofRaw path₁ holding₁ T₁)).2.2
    (s.render (.ofRaw path holding (T₁ ++ T₂))).2.1.output
        = (s.render (.ofRaw path₁ holding₁ T₁)).2.1.output
          ++ (s₁.render (.ofRaw path₂ holding₂ T₂)).2.1.output ∧
      Option.Rel (RenderStop.Shifted (T₁.length - directiveEnd T₁))
        (s₁.render (.ofRaw path₂ holding₂ T₂)).1
        (s.render (.ofRaw path holding (T₁ ++ T₂))).1 ∧
      Session.Alike (s₁.render (.ofRaw path₂ holding₂ T₂)).2.2
        (s.render (.ofRaw path holding (T₁ ++ T₂))).2.2 := by
  obtain ⟨ps, e₁, h₁, hstop₁, hout₁, henv₁⟩ := s.exists_segments (.ofRaw path₁ holding₁ T₁)
  obtain ⟨last, env₁, rfl⟩ : ∃ last env₁, e₁ = .finished last env₁ := by
    cases e₁ with
    | finished last env₁ => exact ⟨last, env₁, rfl⟩
    | stopped => cases hdone.symm.trans hstop₁
  rw [Ending.environment] at henv₁
  rw [henv₁]
  obtain ⟨qs, e₂, h₂, hstop₂, hout₂, henv₂⟩ := env₁.exists_segments (.ofRaw path₂ holding₂ T₂)
  -- the logical bytes are those of the first file and the whole of the second
  have hbody₂ : (Template.ofRaw path₂ holding₂ T₂).body = T₂ := by
    rw [Template.body_ofRaw, hd₂, List.drop_zero]
  have ht : (Template.ofRaw path holding (T₁ ++ T₂)).placed.text
      = (Template.ofRaw path₁ holding₁ T₁).placed.text
        ++ (Template.ofRaw path₂ holding₂ T₂).placed.text := by
    simp only [Template.text_placed, hbody₂, Template.body_append path path₁ holding holding₁ hd]
  have hjoint : ¬ Bytes.Straddles Markers.standard.opener
      (Template.ofRaw path₁ holding₁ T₁).placed.text
      (Template.ofRaw path₂ holding₂ T₂).placed.text := by
    rw [Template.text_placed, Template.text_placed, hbody₂]
    exact not_straddles_body hj
  obtain ⟨rs, e, h, he, hout⟩ := h₁.join (fun _ => ⟨rfl, rfl, rfl⟩) shiftsAlong_session ht
    (Segments.execute_append hd) hjoint h₂
  obtain ⟨rs', e', h', hstop, hout', henv⟩ := s.exists_segments (.ofRaw path holding (T₁ ++ T₂))
  obtain ⟨rfl, rfl⟩ := h.unique h'
  refine ⟨?_, ?_, ?_⟩
  · rw [hout', hout₁, hout₂]
    exact hout
  · rw [hstop, hstop₂, ← List.length_drop]
    exact he.stop?
  · rw [henv, henv₂]
    exact he.environment

/-- **Rendering is compositional.**  When a template renders to its end, the same
template with another one behind it renders as the first, and then as the other one in
the session that the first has left: what is written comes one behind the other, the
whole stops exactly when the other one does and for the same reason, with offsets moved
by the length of the first, and it leaves the same variables, tensors and functions, but
for the places in these. -/
theorem render_append (path path₂ : String) (holding holding₁ holding₂ : Holding)
    {T₁ T₂ : Bytes} (hd : directiveEnd (T₁ ++ T₂) = directiveEnd T₁) (hd₂ : directiveEnd T₂ = 0)
    (hj : ¬ Bytes.Straddles Markers.standard.opener T₁ T₂)
    (hdone : (RenderJob.fresh.render .session .standard (.ofRaw path holding₁ T₁)).1 = none) :
    let first := (Session.start path).render (.ofRaw path holding₁ T₁)
    let second := first.2.2.render (.ofRaw path₂ holding₂ T₂)
    let whole := RenderJob.fresh.render .session .standard (.ofRaw path holding (T₁ ++ T₂))
    whole.2.rendering.output = first.2.1.output ++ second.2.1.output ∧
      Option.Rel (RenderStop.Shifted (T₁.length - directiveEnd T₁)) second.1 whole.1 ∧
      ∃ env : Session, whole.2.environment = some env.close ∧
        env.store.scopes = second.2.2.store.scopes ∧
        env.store.tensors = second.2.2.store.tensors ∧
        env.store.functions.map Prod.fst = second.2.2.store.functions.map Prod.fst ∧
        Store.Alike second.2.2.store env.store := by
  intro first second whole
  rw [(render_fresh _).1] at hdone
  obtain ⟨hjob₁, hjob₂, hjob₃⟩ := render_fresh (.ofRaw path holding (T₁ ++ T₂))
  obtain ⟨hout, hstop, henv⟩ := (Session.start path).render_joined path path path₂ holding holding₁
    holding₂ hd hd₂ hj hdone
  refine ⟨hjob₂.trans hout, ?_, _, hjob₃, henv.store.scopes.symm, henv.store.tensors.symm,
    henv.store.names.symm, henv.store⟩
  show Option.Rel _ _ (RenderJob.fresh.render _ _ _).1
  rw [hjob₁]
  exact hstop

/-- A binding before the joint is printed behind it. -/
theorem render_append_print :
    let T₁ : Bytes := [35, 33, 120, 10, 123, 123, 73, 78, 84, 58, 97, 61, 49, 125, 125, 98]
    let T₂ : Bytes := [123, 123, 80, 82, 73, 78, 84, 40, 97, 41, 125, 125]
    (RenderJob.fresh.render .session .standard (.ofRaw "t" .mapped T₁)).1 = none ∧
      (RenderJob.fresh.render .session .standard (.ofRaw "t" .mapped (T₁ ++ T₂))).2.rendering.output
        = [98, 49] := by
  intro T₁ T₂
  have hj : ¬ Bytes.Straddles Markers.standard.opener T₁ T₂ := by
    rintro ⟨k, h1, h2, h3⟩
    obtain rfl : k = 15 := by
      simp only [T₁, Markers.standard, List.length_cons, List.length_nil] at h1 h2
      omega
    revert h3
    decide
  have hdone : (RenderJob.fresh.render .session .standard (.ofRaw "t" .mapped T₁)).1 = none := by
    decide +kernel
  refine ⟨hdone, (render_append "t" "u" .mapped .mapped .mapped rfl rfl hj hdone).1.trans ?_⟩
  decide +kernel

end SpanScript
