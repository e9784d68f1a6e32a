import SpanScript.Proofs.Bytes.Replacement
import SpanScript.Proofs.Template.Endings
import SpanScript.Proofs.Template.Sequence

/-!
# What is shown where a closing marker is missing

A render that does not find the closing marker behind a statement shows what it finds there.  It
takes one byte more of the template than it may show, only to see whether any is left out.  That
is enough: what it shows is what would be shown of all the bytes that are left.

Three facts are put together.  A render stops for want of the marker exactly where a statement is
left unclosed; the bytes that it takes are a slice of the template, and the byte in excess is the
only one behind the limit that matters; and the bytes within the limit are read as the text that
they stand for, with a replacement character for what is left of a character that is cut.

* `excerpt_take`, `excerpt_eq`: the excerpt of some bytes, by the first ones of them.
* `Unclosed`, `unterminated_iff`: the places where a closing marker is missing.
* `context_of_rest`: the context that is reported there.
-/

namespace SpanScript

/-! ## Excerpts -/

/-- A byte more than is shown tells whether any is left out, as all the bytes do. -/
theorem excerpt_take (rest : Bytes) (limit : Nat) :
    excerpt (rest.take (limit + 1)) limit = excerpt rest limit := by
  rcases Nat.lt_or_ge limit rest.length with hlong | hshort
  · have hmore : limit < (rest.take (limit + 1)).length := by
      rw [List.length_take]
      omega
    rw [excerpt_of_lt_length hlong, excerpt_of_lt_length hmore, List.take_take,
      Nat.min_eq_left (Nat.le_succ limit)]
  · rw [List.take_of_length_le (Nat.le_succ_of_le hshort)]

/-- An excerpt is the text of the first bytes, with dots if there are more. -/
theorem excerpt_eq (rest : Bytes) (limit : Nat) :
    excerpt rest limit = Utf8.decodeLossy (rest.take (min limit rest.length)) ++
      if limit < rest.length then "..." else "" := by
  rcases Nat.lt_or_ge limit rest.length with hlong | hshort
  · rw [excerpt_of_lt_length hlong, Nat.min_eq_left (Nat.le_of_lt hlong), if_pos hlong]
  · rw [excerpt_of_length_le hshort, Nat.min_eq_right hshort, List.take_length,
      if_neg (Nat.not_lt.mpr hshort), String.append_empty]

/-- Up to the limit all is shown, and one byte more is one too many. -/
example : excerpt (Bytes.ofString ",012345678") 10 = ",012345678" ∧
    excerpt (Bytes.ofString ",0123456789") 10 = ",012345678..." := by decide

/-! ## The bytes that are taken -/

namespace Template

theorem offsetOf_natCast (bs : Bytes) (n : Nat) : bs.offsetOf n = n := if_neg (by omega)

/-- A slice between two offsets is a window of the logical bytes. -/
theorem slice_between (t : Template) (a b : Nat) :
    t.slice (some a) (some b) none = .ok (t.body.window a b) := by
  show Except.ok (t.window (some a) (some b)) = _
  rw [window_eq_between, Bytes.between_eq]
  simp only [Option.map_some, Option.getD_some, offsetOf_natCast, Int.toNat_natCast]

/-- A slice without an end has all the logical bytes from an offset on. -/
theorem slice_from (t : Template) (a : Nat) :
    t.slice (some a) none none = .ok (t.body.drop a) := by
  show Except.ok (t.window (some a) none) = _
  rw [window_eq_between, Bytes.between_eq]
  simp only [Option.map_some, Option.map_none, Option.getD_some, Option.getD_none,
    offsetOf_natCast, Int.toNat_natCast, Bytes.window_length]

end Template

/-! ## Statements that are left unclosed -/

section

variable {ε : Type} (b : Boundary ε) (m : Markers)

/-- A render comes to a statement that ends inside the template, and at `closing`, behind the
statement and the trivia after it, the closing marker is missing. -/
structure Unclosed (t : Template) (closing : Nat) : Prop where
  comes : ∃ start stop env, ComesTo b m t.placed start env 0 (b.create t.path) ∧
    (b.execute env t.placed start).outcome = .ended (stop : Nat) ∧ start < stop ∧
    stop ≤ t.body.length ∧ closing = pastTrivia t.body stop t.body.length
  missing : ¬ m.closer <+: t.body.drop closing

variable {b m}

/-- **A render misses the closing marker where a statement is left unclosed**, and nowhere
else. -/
theorem unterminated_iff {t : Template} {closer : Bytes} {offset : Nat} {context : String} :
    (RenderJob.fresh.render b m t).1 = some (.fault (.unterminated closer offset context)) ↔
      closer = m.closer ∧ Unclosed b m t offset ∧
        context = Rendering.excerptAt m t.body offset := by
  rw [RenderJob.render_eq_some_iff]
  constructor
  · rintro ⟨start, env, hc, hs⟩
    generalize ho : (b.execute env t.placed start).outcome = o at hs
    cases hs with
    | unterminated hstart hstop hmissing =>
      exact ⟨rfl, ⟨⟨start, _, env, hc, ho, hstart, hstop, rfl⟩, hmissing⟩, rfl⟩
  · rintro ⟨rfl, ⟨⟨start, stop, env, hc, ho, hstart, hstop, rfl⟩, hmissing⟩, rfl⟩
    exact ⟨start, env, hc, ho ▸ .unterminated hstart hstop hmissing⟩

end

/-- **The context that is reported is that of all the rest.**  Where a statement of a template is
left unclosed, and nowhere else, the render reports the excerpt of a slice of the template, which
has one byte more than the limit.  It is the excerpt of the slice without an end: the text that
the first bytes stand for, as many as the limit allows and as there are, followed by dots exactly
when there are more.  What these bytes have of a character that is cut, by the limit or by the end
of the template, is one replacement character. -/
theorem context_of_rest {ε : Type} (b : Boundary ε) (m : Markers) (t : Template) (closer : Bytes)
    (offset : Nat) (context : String) :
    ∃ window rest,
      t.slice (some offset) (some (offset + m.excerptLimit + 1 : Nat)) none = .ok window ∧
      t.slice (some offset) none none = .ok rest ∧
      ((RenderJob.fresh.render b m t).1 = some (.fault (.unterminated closer offset context)) ↔
        closer = m.closer ∧ Unclosed b m t offset ∧ context = excerpt window m.excerptLimit) ∧
      excerpt window m.excerptLimit = excerpt rest m.excerptLimit ∧
      let first := rest.take (min m.excerptLimit rest.length)
      let shown := Utf8.decodeLossy first
      excerpt rest m.excerptLimit = shown ++ (if m.excerptLimit < rest.length then "..." else "") ∧
      (∀ text : String, shown = text ↔ Utf8.Repairs first text.toList) ∧
      (∀ s, first = Bytes.ofString s → shown = s) ∧
      ∀ s c k, 0 < k → k < (String.utf8EncodeChar c).length →
        first = Bytes.ofString s ++ (String.utf8EncodeChar c).take k →
        shown = s ++ String.singleton Utf8.replacement := by
  have hwindow : t.body.window offset (offset + m.excerptLimit + 1)
      = (t.body.drop offset).take (m.excerptLimit + 1) := by
    rw [Bytes.window, Nat.add_assoc, Nat.add_sub_cancel_left]
  refine ⟨_, _, t.slice_between _ _, t.slice_from _, unterminated_iff, ?_, excerpt_eq _ _, ?_, ?_,
    ?_⟩
  · rw [hwindow, excerpt_take]
  · exact fun text => Utf8.decodeLossy_eq_iff
  · intro s hs
    rw [hs, Utf8.decodeLossy_ofString]
  · intro s c k h0 hk hs
    rw [hs, Utf8.decodeLossy_append_take s h0 hk]

/-- A statement that a comma follows, with a limit that falls inside the last character of the
template. -/
theorem context_of_rest_cut :
    let m : Markers := ⟨[123, 123], [125, 125], 3, by decide, by decide⟩
    let t : Template := .ofRaw "t" .mapped [123, 123, 49, 44, 97, 195, 169]
    Unclosed .session m t 3 ∧
      [44, 97, 195] = Bytes.ofString ",a" ++ (String.utf8EncodeChar 'é').take 1 ∧
      (RenderJob.fresh.render .session m t).1
        = some (.fault (.unterminated [125, 125] 3 ",a\uFFFD...")) := by
  intro m t
  have hended : (Boundary.session.execute (Session.start "t") t.placed 2).outcome = .ended 3 := by
    decide +kernel
  have hopens : Bytes.FirstAt m.opener t.placed.text 0 0 :=
    ⟨Nat.le_refl _, List.prefix_append [123, 123] _, fun k _ hk => absurd hk (Nat.not_lt_zero k)⟩
  have hunclosed : Unclosed .session m t 3 :=
    ⟨⟨2, 3, Session.start "t", .here hopens rfl, hended, by decide, by decide, by decide⟩,
      by decide⟩
  have hfirst : ([44, 97, 195] : Bytes)
      = Bytes.ofString ",a" ++ (String.utf8EncodeChar 'é').take 1 := by decide
  refine ⟨hunclosed, hfirst, ?_⟩
  obtain ⟨window, rest, hwindow, hrest, hrender, hsame, hshown, -, -, hcut⟩ :=
    context_of_rest .session m t m.closer 3 ",a\uFFFD..."
  obtain rfl : [44, 97, 195, 169] = rest := Except.ok.inj hrest
  refine hrender.mpr ⟨rfl, hunclosed, ?_⟩
  rw [hsame, hshown, hcut ",a" 'é' 1 (by decide) (by decide) hfirst]
  rfl

end SpanScript
