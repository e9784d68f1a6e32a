import SpanScript.Command
import SpanScript.Proofs.Session.OneLine
import SpanScript.Proofs.Template.Account

/-!
# Failures are told in one line

The program writes nothing to the error stream when all goes well, and one line when
anything goes wrong.  The line has no newline in it as long as the path has none, with
three exceptions, in which it shows bytes of the template: an escape sequence that stands
for nothing, a text that cannot be converted, and what comes where the closing marker is
missing.

* `render_oneLine`: the faults of a render.
* `run_oneLine`: the lines of the program.
-/

namespace SpanScript

/-! ## Renders -/

/-- A fault shows a newline of the template: in the report of a statement, or in what comes
where the closing marker is missing. -/
inductive RenderFault.ShowsNewline (path : String) : RenderFault → Prop
  | failed {message : String} {offset : Int} : SpanScript.ShowsNewline path message →
    ShowsNewline path (.failed message offset)
  | unterminated {closer : Bytes} {offset : Nat} {context : String} : ¬ OneLine context →
    ShowsNewline path (.unterminated closer offset context)

theorem RenderFault.ShowsNewline.not_oneLine {path : String} {f : RenderFault}
    (h : f.ShowsNewline path) : ¬ OneLine f.message := by
  intro hm
  cases h with
  | failed hs => exact hs.not_oneLine hm
  | unterminated hc =>
    unfold message at hm
    simp only [oneLine_append] at hm
    exact hc hm.1.2

/-- A statement of a template leaves names in a session that are names, and is reported in
one line unless a newline of the template is shown. -/
theorem execute_oneLine {s : Session} (hs : s.store.Within (.named IsName)) (hf : OneLine s.file)
    (text : PlacedText) (offset : Nat) :
    (Boundary.session.execute s text offset).environment.store.Within (.named IsName) ∧
      (Boundary.session.execute s text offset).environment.file = s.file ∧
      ∀ {message place}, (Boundary.session.execute s text offset).outcome = .failed message place →
        OneLine message ∨ ShowsNewline s.file message := by
  obtain ⟨hw, hfile, hm⟩ := Session.perform_oneLine hs hf text offset
  simp only [Boundary.session]
  generalize s.perform text offset = x at hw hfile hm ⊢
  exact ⟨⟨hw.scopes, hw.functions, hw.running⟩, hfile, hm⟩

theorem Segments.oneLine {m : Markers} (hm : OneLine (Utf8.decodeLossy m.closer))
    {text : PlacedText} {first : Nat} {s : Session} {ps : List Passage} {e : Ending Session}
    (h : Segments .session m text first s ps e) :
    s.store.Within (.named IsName) → OneLine s.file → ∀ {f : RenderFault},
      e.stop? = some (.fault f) → OneLine f.message ∨ f.ShowsNewline s.file := by
  induction h with
  | finished => exact fun _ _ _ h => nomatch h
  | @stopped first opening s stop hf hs =>
    intro hw hfile f he
    obtain rfl : stop = .fault f := Option.some.inj he
    obtain ⟨-, -, hx⟩ := execute_oneLine hw hfile text (opening + m.opener.length)
    generalize (Boundary.session.execute s text (opening + m.opener.length)).outcome = o at hs hx
    cases hs with
    | failed => exact (hx rfl).imp_right .failed
    | invalidEnd hn =>
      refine .inl ?_
      unfold RenderFault.message
      simp only [oneLine_append, oneLine_toString, oneLine_toString_int, and_true]
      exact ⟨oneLine_of_all rfl, oneLine_of_all rfl⟩
    | unterminated h1 h2 hc =>
      generalize Rendering.excerptAt m text.text _ = context
      by_cases hctx : OneLine context
      · refine .inl ?_
        unfold RenderFault.message
        simp only [oneLine_append, hctx, hm, and_true]
        exact ⟨⟨oneLine_of_all rfl, oneLine_of_all rfl⟩, oneLine_of_all rfl⟩
      · exact .inr (.unterminated hctx)
  | @passed p s s' ps e hp hx _ ih =>
    intro hw hfile
    obtain ⟨hw', hfile', -⟩ := execute_oneLine hw hfile text (p.start m)
    rw [hx] at hw' hfile'
    rw [← hfile']
    exact ih hw' (hfile' ▸ hfile)

/-- **The fault of a render is told in one line**, unless a newline of the template is
shown. -/
theorem render_oneLine {t : Template} (hpath : OneLine t.path) {m : Markers}
    (hm : OneLine (Utf8.decodeLossy m.closer)) {f : RenderFault}
    (h : (RenderJob.fresh.render .session m t).1 = some (.fault f)) :
    OneLine f.message ∨ f.ShowsNewline t.path := by
  obtain ⟨ps, e, hseg, -⟩ := run_segments .session m t.placed .start (.start t.path)
  have hstart : (Session.start t.path).store.Within (.named IsName) :=
    ⟨Nat.one_pos, fun _ h => (nomatch h), fun _ h => (nomatch h)⟩
  have hrender : RenderJob.fresh.render .session m t = _ := hseg.render_eq
  rw [hrender] at h
  exact hseg.oneLine hm hstart hpath h

/-! ## The program -/

theorem FileProblem.oneLine_name (p : FileProblem) : OneLine p.name := by
  cases p <;> exact oneLine_of_all rfl

theorem OpenFault.oneLine_message {path : String} (hpath : OneLine path) {holding : Option String}
    {contents : Except FileProblem Bytes} {f : OpenFault}
    (h : Template.open? path holding contents = .error f) : OneLine f.message := by
  have hfailed : OneLine "' failed with " := oneLine_of_all rfl
  unfold Template.open? at h
  split at h
  · cases h
    unfold message
    simp only [oneLine_append, hpath, hfailed, FileProblem.oneLine_name, and_true]
    exact oneLine_of_all rfl
  · split at h
    · cases h
    · cases h
      unfold message
      simp only [oneLine_append, hpath, hfailed, FileProblem.oneLine_name, and_true]
      exact oneLine_of_all rfl

theorem Template.path_open? {path : String} {holding : Option String}
    {contents : Except FileProblem Bytes} {t : Template}
    (h : Template.open? path holding contents = .ok t) : t.path = path := by
  unfold Template.open? at h
  split at h
  · cases h
  · split at h <;> cases h
    rfl

namespace Command

theorem oneLine_diagnostic (who message : String) :
    OneLine (diagnostic who message) ↔ OneLine who ∧ OneLine message := by
  have hmark : OneLine ": error: " := oneLine_of_all rfl
  simp only [diagnostic, oneLine_append, hmark, and_true]

/-- The line shows a newline of the template at a path. -/
def ShowsNewline (path line : String) (t : Template) : Prop :=
  ∃ f, (renderTemplate t).1 = some (.fault f) ∧ line = diagnostic path f.message ∧
    f.ShowsNewline path

theorem ShowsNewline.not_oneLine {path line : String} {t : Template}
    (h : ShowsNewline path line t) : ¬ OneLine line := by
  obtain ⟨f, -, rfl, hf⟩ := h
  exact fun hl => hf.not_oneLine ((oneLine_diagnostic _ _).mp hl).2

/-- What the program leaves behind when it renders a template. -/
theorem report_oneLine {t : Template} (hpath : OneLine t.path) {r : Report}
    (hr : report false t = .reported r) :
    (r.code = success ∧ r.errors = []) ∨
      ∃ line, r.code = failure ∧ r.errors = [line] ∧
        (OneLine line ∨ ShowsNewline t.path line t) := by
  unfold report at hr
  dsimp only at hr
  split at hr
  · cases hr
    exact .inl ⟨rfl, rfl⟩
  · next f hstop =>
    cases hr
    refine .inr ⟨_, rfl, rfl, ?_⟩
    rcases render_oneLine hpath (m := .standard) (oneLine_of_all rfl) hstop with hm | hs
    · exact .inl ((oneLine_diagnostic _ _).mpr ⟨hpath, hm⟩)
    · exact .inr ⟨f, hstop, rfl, hs⟩
  · cases hr
  · cases hr
  · cases hr

theorem Request.mem_of_unknownOption {args : List String} {arg : String}
    (h : Request.ofArguments args = .unknownOption arg) : arg ∈ args := by
  unfold ofArguments at h
  split at h
  · next hf =>
    cases h
    exact List.mem_of_find?_eq_some hf
  · split at h <;> cases h

theorem Request.args_of_render {args : List String} {path : String}
    (h : Request.ofArguments args = .render path) : args = [path] := by
  unfold ofArguments at h
  split at h
  · cases h
  · split at h <;> cases h
    rfl

/-- **Failures are told in one line.** -/
theorem run_oneLine (read : String → Except FileProblem Bytes) {args : List String}
    (hargs : ∀ arg ∈ args, OneLine arg) {r : Report} (hr : run false read args = .reported r) :
    (r.code = success ∧ r.errors = []) ∨
      ∃ line, r.code = failure ∧ r.errors = [line] ∧
        (¬ OneLine line ↔ ∃ path t, args = [path] ∧
          Template.open? path none (read path) = .ok t ∧ ShowsNewline path line t) := by
  -- a line that is one line in any case shows no newline of a template
  have hplain {line : String} (hl : OneLine line) :
      ¬ OneLine line ↔ ∃ path t, args = [path] ∧
        Template.open? path none (read path) = .ok t ∧ ShowsNewline path line t :=
    iff_of_false (fun h => h hl) fun ⟨_, _, _, _, hs⟩ => hs.not_oneLine hl
  unfold run at hr
  split at hr
  · next arg hreq =>
    cases hr
    refine .inr ⟨_, rfl, rfl, hplain ?_⟩
    simp only [oneLine_diagnostic, oneLine_append, hargs arg (Request.mem_of_unknownOption hreq)]
    exact ⟨oneLine_of_all rfl, ⟨oneLine_of_all rfl, trivial⟩, oneLine_of_all rfl⟩
  · cases hr
    exact .inr ⟨_, rfl, rfl, hplain ((oneLine_diagnostic _ _).mpr
      ⟨oneLine_of_all rfl, oneLine_of_all rfl⟩)⟩
  · cases hr
    refine .inr ⟨_, rfl, rfl, hplain ?_⟩
    simp only [usage, oneLine_append]
    exact ⟨⟨oneLine_of_all rfl, oneLine_of_all rfl⟩, oneLine_of_all rfl⟩
  · next path hreq =>
    split at hr
    · cases hr
    have hargs' := Request.args_of_render hreq
    have hpath : OneLine path := hargs path (hargs' ▸ List.mem_singleton_self path)
    unfold render at hr
    split at hr
    · next f hopen =>
      cases hr
      exact .inr ⟨_, rfl, rfl, hplain ((oneLine_diagnostic _ _).mpr
        ⟨hpath, OpenFault.oneLine_message hpath hopen⟩)⟩
    · next t hopen =>
      have htpath := Template.path_open? hopen
      rcases report_oneLine (htpath ▸ hpath) hr with hok | ⟨line, hcode, hlines, hline | hshows⟩
      · exact .inl hok
      · exact .inr ⟨line, hcode, hlines, hplain hline⟩
      · rw [htpath] at hshows
        exact .inr ⟨line, hcode, hlines,
          iff_of_true hshows.not_oneLine ⟨path, t, hargs', hopen, hshows⟩⟩

/-- A backslash before a newline: the line is the one that shows it. -/
theorem run_oneLine_escape :
    let text : Bytes := [123, 123, 34, 92, 10, 34, 125, 125]
    let line := "a: error: Unknown escape '\\\n' at a:1:5"
    let r : Report := ⟨failure, [], [line]⟩
    (∀ arg ∈ ["a"], OneLine arg) ∧ run false (fun _ => .ok text) ["a"] = .reported r ∧
      ∃ t, Template.open? "a" none (.ok text) = .ok t ∧ ShowsNewline "a" line t := by
  intro text line r
  have hargs : ∀ arg ∈ ["a"], OneLine arg := fun arg h =>
    List.mem_singleton.mp h ▸ oneLine_of_all rfl
  have hr : run false (fun _ => .ok text) ["a"] = .reported r := by decide +kernel
  refine ⟨hargs, hr, ?_⟩
  rcases run_oneLine _ hargs hr with ⟨hcode, -⟩ | ⟨line', -, hlines, hiff⟩
  · cases hcode
  · obtain rfl : line = line' := (List.cons.inj hlines).1
    obtain ⟨path, t, hpath, hopen, hshows⟩ := hiff.mp fun hl => hl.not_mem (by decide +kernel)
    obtain rfl : "a" = path := (List.cons.inj hpath).1
    exact ⟨t, hopen, hshows⟩

/-- A newline behind a backslash, one in a text that is no number, and one behind a statement:
each is in the line that tells what is wrong. -/
theorem run_newlines :
    let Told (text : Bytes) (line : String) : Prop :=
      run false (fun _ => .ok text) ["a"] = .reported ⟨failure, [], [line]⟩ ∧ ¬ OneLine line
    (∀ arg ∈ ["a"], OneLine arg) ∧
      Told [123, 123, 34, 92, 10, 34, 125, 125] "a: error: Unknown escape '\\\n' at a:1:5" ∧
      Told [123, 123, 73, 78, 84, 40, 34, 97, 92, 110, 98, 34, 41, 125, 125]
        "a: error: INT cannot convert 'a\nb' at a:1:3" ∧
      Told [123, 123, 49, 32, 120, 10, 125, 125]
        "a: error: expected '\x7d\x7d' after statement but got 'x\n\x7d\x7d'" := by
  intro Told
  refine ⟨fun arg h => List.mem_singleton.mp h ▸ oneLine_of_all rfl,
    ⟨by decide +kernel, fun h => h.not_mem (by decide +kernel)⟩,
    ⟨by decide +kernel, fun h => h.not_mem (by decide +kernel)⟩,
    by decide +kernel, fun h => h.not_mem (by decide +kernel)⟩

end Command

end SpanScript
