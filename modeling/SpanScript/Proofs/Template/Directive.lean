import SpanScript.Proofs.Session.Lowered
import SpanScript.Proofs.Template.Append

/-!
# The directive line

A directive line in front of a template that has none is not seen by a render: it is no
part of the logical bytes, where markers, statements and trivia are looked for, and all
offsets are counted behind it.  It is counted as a line, and nothing but the places in
messages, and in the functions that are left, tells that it is there.

* `placed_withDirective`: what a render reads of the template.
* `Segments.lower`: the segmentation one line further down.
* `render_directive`: the render.
-/

namespace SpanScript

/-! ## What a render reads -/

theorem Bytes.findFrom_newline {as : Bytes} (h : newline ∉ as) (bs : Bytes) :
    ∀ n, findFrom [newline] n (as ++ newline :: bs) = some (n + as.length) := by
  induction as with
  | nil => intro n; rfl
  | cons a as ih =>
    intro n
    have hne : newline ≠ a := fun hx => h (hx ▸ List.mem_cons_self)
    have hp : ¬ [newline].isPrefixOf (a :: (as ++ newline :: bs)) = true := by
      simp [List.isPrefixOf, hne]
    rw [List.cons_append, findFrom, if_neg hp, ih fun hx => h (List.mem_cons_of_mem _ hx),
      List.length_cons]
    congr 1
    omega

/-- A template with a line in front that begins with `#!`. -/
def withDirective (line body : Bytes) : Bytes := 35 :: 33 :: (line ++ Bytes.newline :: body)

theorem directiveEnd_withDirective {line : Bytes} (h : Bytes.newline ∉ line) (body : Bytes) :
    directiveEnd (withDirective line body) = line.length + 3 := by
  have hn : Bytes.newline ∉ 35 :: 33 :: line := by
    simpa [Bytes.newline] using h
  have hf := Bytes.findFrom_newline hn body 0
  have hraw : withDirective line body = 35 :: 33 :: line ++ Bytes.newline :: body := rfl
  unfold directiveEnd
  rw [hraw]
  dsimp only [List.cons_append] at hf ⊢
  rw [hf]
  simp only [List.length_cons]
  omega

theorem directiveEnd_of_not_prefix {body : Bytes} (h : ¬ [35, 33] <+: body) :
    directiveEnd body = 0 := by
  unfold directiveEnd
  split
  · next rest => exact absurd ⟨rest, rfl⟩ h
  · rfl

namespace Template

theorem newlineOffsets_of_not_mem {bs : Bytes} (h : Bytes.newline ∉ bs) :
    ∀ n, newlineOffsets n bs = [] := by
  induction bs with
  | nil => exact fun _ => rfl
  | cons b bs ih =>
    intro n
    have hne : b ≠ Bytes.newline := fun hx => h (hx ▸ List.mem_cons_self)
    rw [newlineOffsets, if_neg (by simpa using hne)]
    exact ih (fun hx => h (List.mem_cons_of_mem _ hx)) _

theorem newlineOffsets_add (bs : Bytes) (k : Nat) :
    ∀ n, newlineOffsets (n + k) bs = (newlineOffsets n bs).map (· + k) := by
  induction bs with
  | nil => exact fun _ => rfl
  | cons b bs ih =>
    intro n
    rw [newlineOffsets, newlineOffsets, Nat.add_right_comm, ih]
    split <;> rfl

/-- The newlines of a template with a line in front: the one that ends the line, and
those behind it. -/
theorem newlineOffsets_withDirective {line : Bytes} (h : Bytes.newline ∉ line) (body : Bytes) :
    newlineOffsets 0 (withDirective line body)
      = (line.length + 2) :: (newlineOffsets 0 body).map (· + (line.length + 3)) := by
  have hn : Bytes.newline ∉ 35 :: 33 :: line := by
    simpa [Bytes.newline] using h
  have hraw : withDirective line body = (35 :: 33 :: line) ++ Bytes.newline :: body := rfl
  rw [hraw, newlineOffsets_append, newlineOffsets_of_not_mem hn, List.nil_append, newlineOffsets,
    if_pos (beq_self_eq_true _), ← newlineOffsets_add]
  simp only [List.length_cons, Nat.zero_add]

theorem locate_placed (t : Template) (offset : Nat) :
    t.placed.locate offset = ⟨(t.indexed.place offset).1, (t.indexed.place offset).2.toNat⟩ := rfl

/-- The newlines before a place behind the line in front. -/
theorem takeWhile_withDirective {line : Bytes} (h : Bytes.newline ∉ line) (body : Bytes)
    (offset : Nat) :
    (newlineOffsets 0 (withDirective line body)).takeWhile
        (fun n : Nat => decide ((n : Int) < ((line.length + 3 : Nat) : Int) + offset))
      = (line.length + 2) :: ((newlineOffsets 0 body).takeWhile
        fun n : Nat => decide ((n : Int) < ((0 : Nat) : Int) + offset)).map
          (· + (line.length + 3)) := by
  rw [newlineOffsets_withDirective h, List.takeWhile_cons, if_pos, List.takeWhile_map]
  · congr 3
    funext n
    rw [Function.comp, decide_eq_decide]
    omega
  · rw [decide_eq_true_eq]
    omega

/-- Places are counted from the last newline before them, or from the beginning. -/
theorem place_withDirective (path : String) (holding holding' : Holding) {line body : Bytes}
    (hline : Bytes.newline ∉ line) (hbody : ¬ [35, 33] <+: body) (offset : Nat) :
    (ofRaw path holding (withDirective line body)).indexed.place offset
      = (((ofRaw path holding' body).indexed.place offset).1 + 1,
        ((ofRaw path holding' body).indexed.place offset).2) := by
  simp only [place, indexed, ofRaw, directiveEnd_withDirective hline,
    directiveEnd_of_not_prefix hbody, Option.getD_none, Option.getD_some,
    takeWhile_withDirective hline]
  generalize (newlineOffsets 0 body).takeWhile _ = before
  rw [List.length_cons, List.length_map]
  refine Prod.ext rfl ?_
  rcases List.eq_nil_or_concat before with rfl | ⟨before, n, rfl⟩
  · simp
    omega
  · rw [List.concat_eq_append, List.map_append, List.map_cons, List.map_nil, ← List.cons_append,
      List.getLast?_concat, List.getLast?_concat]
    dsimp only
    omega

/-- **What a render reads of a template with a line in front**: the same bytes, one line
further down. -/
theorem placed_withDirective (path : String) (holding holding' : Holding) {line body : Bytes}
    (hline : Bytes.newline ∉ line) (hbody : ¬ [35, 33] <+: body) :
    (ofRaw path holding (withDirective line body)).placed
      = (ofRaw path holding' body).placed.lower := by
  refine PlacedText.mk.injEq .. ▸ ⟨?_, funext fun offset => ?_⟩
  · show (ofRaw path holding (withDirective line body)).body = (ofRaw path holding' body).body
    rw [body_ofRaw, body_ofRaw, directiveEnd_withDirective hline, directiveEnd_of_not_prefix hbody]
    have hraw : withDirective line body = 35 :: 33 :: (line ++ [Bytes.newline]) ++ body := by
      simp [withDirective]
    rw [hraw, List.drop_left' (by simp), List.drop_zero]
  · rw [locate_placed, place_withDirective path holding holding' hline hbody]
    rfl

end Template

/-! ## The segmentation -/

/-- Why a render stops whose template is one line further down: for the same reason, but
that a report of a failure puts it there. -/
inductive RenderStop.Lowers (file : String) : RenderStop → RenderStop → Prop
  | located {what : String} {loc : Location} {offset : Int} :
      Lowers file (.fault (.failed (what ++ " at " ++ loc.text file) offset))
        (.fault (.failed (what ++ " at " ++ loc.lower.text file) offset))
  | tooDeep {offset : Nat} :
      Lowers file
        (.fault (.failed ("Statement nests too deeply at offset " ++ toString offset) offset))
        (.fault (.failed ("Statement nests too deeply at offset " ++ toString offset) offset))
  | invalidEnd {start : Nat} {stop : Int} :
      Lowers file (.fault (.invalidEnd start stop)) (.fault (.invalidEnd start stop))
  | unterminated {closer : Bytes} {offset : Nat} {context : String} :
      Lowers file (.fault (.unterminated closer offset context))
        (.fault (.unterminated closer offset context))
  | escaped {message : String} : Lowers file (.escaped message) (.escaped message)
  | unfinished : Lowers file .unfinished .unfinished

theorem RenderStop.Lowers.phase {file : String} {s s' : RenderStop} (h : Lowers file s s') :
    s'.phase = s.phase := by
  cases h <;> rfl

theorem Stops.lower {m : Markers} {body : Bytes} {start : Nat} {file : String} {o o' : Outcome}
    {s : RenderStop} (h : Stops m body start o s) (ho : Session.Lowers file o o') :
    ∃ s', Stops m body start o' s' ∧ RenderStop.Lowers file s s' := by
  cases h with
  | failed => cases ho <;> exact ⟨_, .failed, by constructor⟩
  | escaped => cases ho; exact ⟨_, .escaped, .escaped⟩
  | unfinished => cases ho; exact ⟨_, .unfinished, .unfinished⟩
  | invalidEnd hn => cases ho; exact ⟨_, .invalidEnd hn, .invalidEnd⟩
  | unterminated h1 h2 hc => cases ho; exact ⟨_, .unterminated h1 h2 hc, .unterminated⟩

/-- How a segmentation ends one line further down. -/
inductive Ending.Lowers (file : String) : Ending Session → Ending Session → Prop
  | finished {last : Nat} {s : Session} :
      Lowers file (.finished last s) (.finished last s.lower)
  | stopped {first opening : Nat} {reply reply' : Reply Session} {stop stop' : RenderStop} :
      reply'.written = reply.written → reply'.environment = reply.environment.lower →
      RenderStop.Lowers file stop stop' →
      Lowers file (.stopped first opening reply stop) (.stopped first opening reply' stop')

namespace Ending.Lowers

variable {file : String} {e e' : Ending Session}

theorem stop? (h : Lowers file e e') : Option.Rel (RenderStop.Lowers file) e.stop? e'.stop? := by
  cases h with
  | finished => exact .none
  | stopped _ _ hs => exact .some hs

theorem environment (h : Lowers file e e') : e'.environment = e.environment.lower := by
  cases h with
  | finished => rfl
  | stopped _ henv _ => exact henv

/-- What is written does not tell of the lines. -/
theorem settle (h : Lowers file e e') (body : Bytes) (r : Rendering) :
    r.settle body e' = r.settle body e := by
  cases h with
  | finished => rfl
  | stopped hw _ hs => rw [Rendering.settle, Rendering.settle, hw, hs.phase]

theorem final (h : Lowers file e e') (m : Markers) (body : Bytes) (ps : List Passage) :
    Rendering.final m body ps e' = Rendering.final m body ps e := by
  unfold Rendering.final
  rw [h.settle]
  cases h with
  | finished => rfl
  | stopped _ _ hs => cases hs <;> rfl

end Ending.Lowers

/-- **The segmentation of a template one line further down** has the same passages. -/
theorem Segments.lower {m : Markers} {text : PlacedText} {first : Nat} {s : Session}
    {ps : List Passage} {e : Ending Session} (h : Segments .session m text first s ps e) :
    ∃ e', Segments .session m text.lower first s.lower ps e' ∧ Ending.Lowers s.file e e' := by
  induction h with
  | finished ha => exact ⟨_, .finished ha, .finished⟩
  | @stopped first opening s stop hf hs =>
    obtain ⟨ho, hw, henv, -⟩ := execute_lower s text (opening + m.opener.length)
    obtain ⟨stop', hs', hstop⟩ := hs.lower ho
    exact ⟨_, .stopped hf hs', .stopped hw henv hstop⟩
  | @passed p s s' ps e hp hx _ ih =>
    obtain ⟨ho, hw, henv, hfile⟩ := execute_lower s text (p.start m)
    generalize hr : Boundary.session.execute s.lower text.lower (p.start m) = r at ho hw henv
    obtain ⟨env, written, outcome⟩ := r
    rw [hx] at ho hw henv hfile
    obtain rfl : written = p.written := hw
    obtain rfl : env = s'.lower := henv
    obtain rfl : outcome = .ended p.stop := by cases ho; rfl
    obtain ⟨e', hseg, he⟩ := ih
    exact ⟨e', .passed hp hr hseg, hfile ▸ he⟩

/-- **The directive line is invisible.**  With any markers, a template with a line in
front that begins with `#!` renders as the template without it: the same bytes, phase,
cursor and spans, and the same failure at the same offset.  The line is counted in the
place that a message ends with, and nowhere else. -/
theorem render_directive (path : String) (holding holding' : Holding) (m : Markers)
    {line body : Bytes} (hline : Bytes.newline ∉ line) (hbody : ¬ [35, 33] <+: body) :
    let plain := RenderJob.fresh.render .session m (.ofRaw path holding body)
    let directed := RenderJob.fresh.render .session m
      (.ofRaw path holding' (withDirective line body))
    Option.Rel (RenderStop.Lowers path) plain.1 directed.1 ∧ directed.2 = plain.2 := by
  intro plain directed
  have hplaced := Template.placed_withDirective path holding' holding hline hbody
  have htext : (Template.ofRaw path holding' (withDirective line body)).body
      = (Template.ofRaw path holding body).body := congrArg PlacedText.text hplaced
  obtain ⟨ps, e, h, -⟩ := run_segments .session m (Template.ofRaw path holding body).placed
    .start (.start path)
  obtain ⟨e', h', he⟩ := h.lower
  rw [← hplaced] at h'
  have hplain : plain = _ := h.render_eq
  have hdirected : directed = _ := h'.render_eq
  rw [hplain, hdirected, htext, he.final, he.environment]
  exact ⟨he.stop?, rfl⟩

/-- A failure in a function that was defined on the line before. -/
theorem render_directive_function :
    let body : Bytes := [123, 123, 70, 85, 78, 67, 32, 102, 40, 41, 58, 73, 78, 84, 123, 68, 73,
      86, 40, 49, 44, 48, 41, 125, 125, 125, 10, 123, 123, 102, 40, 41, 125, 125]
    let plain := RenderJob.fresh.render .session .standard (.ofRaw "t" .mapped body)
    let directed := RenderJob.fresh.render .session .standard
      (.ofRaw "t" .mapped (withDirective [120] body))
    Bytes.newline ∉ ([120] : Bytes) ∧ ¬ [35, 33] <+: body ∧
      plain.1 = some (.fault (.failed "Division by zero at t:1:16" 29)) ∧
      directed.1 = some (.fault (.failed "Division by zero at t:2:16" 29)) ∧
      Option.Rel (RenderStop.Lowers "t") plain.1 directed.1 ∧
      directed.2.rendering.output = [10] := by
  intro body plain directed
  have hline : Bytes.newline ∉ ([120] : Bytes) := by decide
  have hbody : ¬ [35, 33] <+: body := by decide
  obtain ⟨hstop, hjob⟩ := render_directive "t" .mapped .mapped .standard hline hbody
  refine ⟨hline, hbody, by decide +kernel, by decide +kernel, hstop, ?_⟩
  rw [hjob]
  decide +kernel

end SpanScript
