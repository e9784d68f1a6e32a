import SpanScript.Proofs.Session.Places
import SpanScript.Proofs.Template.Account

/-!
# A template behind other text

What becomes of the segmentation of a template when other text is put in front of it.
If no opening marker stands across the joint, and the boundary answers alike wherever a
statement stands, then the statements are the same, their offsets are moved by the
length of that text, and what is left of it is written in front.

* `Boundary.ShiftsAlong`: a boundary that answers alike.
* `Segments.shift`: the segmentation behind other text.
-/

namespace SpanScript

variable {ε : Type}

/-- The bytes that a segmentation writes after its last passage. -/
def Ending.output (body : Bytes) : Ending ε → Bytes
  | .finished last _ => body.window last body.length
  | .stopped first opening reply _ =>
    body.window first opening ++ reply.written.flatMap Bytes.ofString

def segmentsOutput (body : Bytes) (ps : List Passage) (e : Ending ε) : Bytes :=
  ps.flatMap (Passage.output body) ++ e.output body

/-- A run writes what its segmentation writes. -/
theorem Segments.run_eq {b : Boundary ε} {m : Markers} {text : PlacedText} {env : ε}
    {ps : List Passage} {e : Ending ε} (h : Segments b m text 0 env ps e) :
    (Rendering.run b m text .start env).1 = e.stop? ∧
      (Rendering.run b m text .start env).2.1.output = segmentsOutput text.text ps e ∧
      (Rendering.run b m text .start env).2.2 = e.environment := by
  rw [Segments.run (r := .start) h]
  refine ⟨rfl, ?_, rfl⟩
  obtain ⟨-, -, ho⟩ := Rendering.foldl_pass m text.text ps .start
  have hs : Rendering.start.output = [] := rfl
  rw [hs, List.nil_append] at ho
  cases e <;>
    simp only [Rendering.settle, Rendering.write, Rendering.copy_eq, ho, segmentsOutput,
      Ending.output, List.append_assoc]

/-! ## What is moved -/

/-- Why a render stops, `k` bytes further on. -/
inductive RenderStop.Shifted (k : Nat) : RenderStop → RenderStop → Prop
  | failed {message message' : String} {offset : Int} :
      Shifted k (.fault (.failed message offset)) (.fault (.failed message' (offset + k)))
  | invalidEnd {start : Nat} {stop : Int} :
      Shifted k (.fault (.invalidEnd start stop)) (.fault (.invalidEnd (start + k) (stop + k)))
  | unterminated {closer : Bytes} {offset : Nat} {context : String} :
      Shifted k (.fault (.unterminated closer offset context))
        (.fault (.unterminated closer (offset + k) context))
  | escaped {message : String} : Shifted k (.escaped message) (.escaped message)
  | unfinished : Shifted k .unfinished .unfinished

/-- Endings of two segmentations that stop for the same reason, or do not, and leave
environments related by `A`. -/
inductive Ending.Shifted (A : ε → ε → Prop) (k : Nat) : Ending ε → Ending ε → Prop
  | finished {last last' : Nat} {env env' : ε} : A env env' →
      Shifted A k (.finished last env) (.finished last' env')
  | stopped {first first' opening : Nat} {reply reply' : Reply ε} {stop stop' : RenderStop} :
      A reply.environment reply'.environment → RenderStop.Shifted k stop stop' →
      Shifted A k (.stopped first opening reply stop)
        (.stopped first' (opening + k) reply' stop')

theorem Ending.Shifted.stop? {A : ε → ε → Prop} {k : Nat} {e e' : Ending ε}
    (h : Ending.Shifted A k e e') : Option.Rel (RenderStop.Shifted k) e.stop? e'.stop? := by
  cases h with
  | finished => exact .none
  | stopped _ hs => exact .some hs

theorem Ending.Shifted.environment {A : ε → ε → Prop} {k : Nat} {e e' : Ending ε}
    (h : Ending.Shifted A k e e') : A e.environment e'.environment := by
  cases h with
  | finished hA => exact hA
  | stopped hA _ => exact hA

/-- The boundary answers alike in environments related by `A`, when the text goes on
alike `k` bytes further on. -/
def Boundary.ShiftsAlong (b : Boundary ε) (A : ε → ε → Prop) : Prop :=
  ∀ ⦃s t : ε⦄ ⦃text text' : PlacedText⦄ ⦃offset k : Nat⦄, A s t →
    text'.text.drop (offset + k) = text.text.drop offset →
    Outcome.Shifted k (b.execute s text offset).outcome
        (b.execute t text' (offset + k)).outcome ∧
      (b.execute s text offset).written = (b.execute t text' (offset + k)).written ∧
      A (b.execute s text offset).environment (b.execute t text' (offset + k)).environment

/-- A passage with other text in front; the literal text may begin in it. -/
def Passage.shift (k first : Nat) (p : Passage) : Passage :=
  ⟨first, p.opening + k, p.stop + k, p.closing + k, p.written⟩

section

variable {m : Markers} {as bs : Bytes}

theorem window_shift (as bs : Bytes) (a c : Nat) :
    (as ++ bs).window (a + as.length) (c + as.length) = bs.window a c := by
  rw [Nat.add_comm a, Nat.add_comm c, Bytes.window_append_right]

/-- Text that begins in the first part, and a window of the second. -/
theorem window_joined (as bs : Bytes) {first first' c : Nat} (h : first' ≤ first + as.length)
    (h' : first ≤ c) :
    (as ++ bs).window first' (c + as.length)
      = (as ++ bs).window first' (first + as.length) ++ bs.window first c := by
  rw [← window_shift as bs, Bytes.window_append _ h (Nat.add_le_add_right h' _)]

theorem drop_shift (as bs : Bytes) (n : Nat) : (as ++ bs).drop (n + as.length) = bs.drop n := by
  rw [Nat.add_comm, ← List.drop_drop, List.drop_left]

theorem pastTrivia_shift (as bs : Bytes) (n : Nat) :
    pastTrivia (as ++ bs) (n + as.length) (as ++ bs).length
      = pastTrivia bs n bs.length + as.length := by
  unfold pastTrivia
  rw [drop_shift, List.length_append, Nat.add_comm as.length, Nat.add_sub_add_right]
  omega

theorem Passage.Stands.shift {p : Passage} {first : Nat} (h : p.Stands m bs)
    (hf : Bytes.FirstAt m.opener (as ++ bs) first (p.opening + as.length)) :
    (p.shift as.length first).Stands m (as ++ bs) where
  opens := hf
  start_lt_stop := by
    have := h.start_lt_stop
    simp only [Passage.start, Passage.shift] at this ⊢
    omega
  stop_le := by
    have := h.stop_le
    simp only [Passage.shift, List.length_append]
    omega
  stop_le_closing := Nat.add_le_add_right h.stop_le_closing _
  trivia := by
    show IsTrivia ((as ++ bs).window (p.stop + as.length) (p.closing + as.length))
    rw [window_shift]
    exact h.trivia
  closes := Bytes.prefix_drop_append_right.mpr h.closes
  closer_bare := h.closer_bare

theorem Stops.shift {start : Nat} {o o' : Outcome} {s : RenderStop} (h : Stops m bs start o s)
    (ho : Outcome.Shifted as.length o o') :
    ∃ s', Stops m (as ++ bs) (start + as.length) o' s' ∧
      RenderStop.Shifted as.length s s' := by
  cases h with
  | failed => cases ho; exact ⟨_, .failed, .failed⟩
  | escaped => cases ho; exact ⟨_, .escaped, .escaped⟩
  | unfinished => cases ho; exact ⟨_, .unfinished, .unfinished⟩
  | invalidEnd hn =>
    cases ho
    refine ⟨_, .invalidEnd ?_, .invalidEnd⟩
    rw [List.length_append]
    omega
  | @unterminated stop h1 h2 hc =>
    cases ho
    have hp := pastTrivia_shift as bs stop
    have hs : Stops m (as ++ bs) (start + as.length) (.ended ((stop + as.length : Nat) : Int)) _ :=
      .unterminated (by omega) (by rw [List.length_append]; omega)
        (by rw [hp, Bytes.prefix_drop_append_right]; exact hc)
    rw [hp] at hs
    have hx : Rendering.excerptAt m (as ++ bs) (pastTrivia bs stop bs.length + as.length)
        = Rendering.excerptAt m bs (pastTrivia bs stop bs.length) := by
      unfold Rendering.excerptAt
      rw [← window_shift as bs]
      congr 2
      omega
    rw [hx, Int.natCast_add] at hs
    exact ⟨_, hs, .unterminated⟩

end

/-! ## The segmentation -/

/-- **The segmentation of a template behind other text**, from where no opening marker
stands before the template itself. -/
theorem Segments.shift {b : Boundary ε} {A : ε → ε → Prop} (hb : b.ShiftsAlong A) {m : Markers}
    {text text' : PlacedText} {as : Bytes} (ht : text'.text = as ++ text.text) {first : Nat}
    {env : ε} {ps : List Passage} {e : Ending ε} (h : Segments b m text first env ps e) :
    ∀ {first' : Nat} {env' : ε}, A env env' → first' ≤ first + as.length →
      (∀ k, first' ≤ k → k < first + as.length → ¬ m.opener <+: (as ++ text.text).drop k) →
      ∃ qs e', Segments b m text' first' env' qs e' ∧ Ending.Shifted A as.length e e' ∧
        segmentsOutput text'.text qs e'
          = text'.text.window first' (first + as.length) ++ segmentsOutput text.text ps e := by
  have hdrop : ∀ n, text'.text.drop (n + as.length) = text.text.drop n :=
    fun n => ht ▸ drop_shift as text.text n
  induction h with
  | @finished first env ha =>
    intro first' env' henv hle hc
    refine ⟨[], _, .finished (ht ▸ ha.shift hc), .finished henv, ?_⟩
    show text'.text.window first' text'.text.length
      = text'.text.window first' (first + as.length) ++ text.text.window first text.text.length
    rw [Bytes.window_length, Bytes.window_length, Bytes.drop_eq_window_append _ hle, hdrop]
  | @stopped first opening env stop hf hs =>
    intro first' env' henv hle hc
    obtain ⟨ho, hw, hx⟩ := hb henv (hdrop (opening + m.opener.length))
    obtain ⟨stop', hs', hss⟩ := hs.shift ho
    have hstart : opening + m.opener.length + as.length
      = opening + as.length + m.opener.length := by omega
    rw [hstart] at hw hx hs'
    refine ⟨[], _, .stopped (ht ▸ hf.shift hle hc) (ht ▸ hs'), .stopped hx hss, ?_⟩
    show text'.text.window first' (opening + as.length) ++ _
      = text'.text.window first' (first + as.length) ++ (text.text.window first opening ++ _)
    rw [ht, window_joined as text.text hle hf.le, hw, List.append_assoc]
  | @passed p env env₁ ps e hp hx _ ih =>
    intro first' env' henv hle hc
    obtain ⟨ho, hw, henv₁⟩ := hb henv (hdrop (p.start m))
    generalize hr : b.execute env' text' (p.start m + as.length) = r at ho hw henv₁
    obtain ⟨env₂, written, outcome⟩ := r
    rw [hx] at ho hw henv₁
    obtain rfl : p.written = written := hw
    obtain rfl : outcome = .ended ((p.stop + as.length : Nat) : Int) := by cases ho; rfl
    have hnext : (p.shift as.length first').next m = p.next m + as.length := by
      simp only [Passage.next, Passage.shift]
      omega
    have hstart : (p.shift as.length first').start m = p.start m + as.length := by
      simp only [Passage.start, Passage.shift]
      omega
    rw [← hstart] at hr
    obtain ⟨qs, e', hseg, he, hout⟩ := ih henv₁ (Nat.le_of_eq hnext) fun k h1 h2 => by omega
    rw [hnext, Bytes.window_eq_nil _ (Nat.le_refl _), List.nil_append] at hout
    refine ⟨p.shift as.length first' :: qs, e',
      .passed (ht ▸ hp.shift (hp.opens.shift hle hc)) hr hseg, he, ?_⟩
    have hwrite : (p.shift as.length first').output text'.text
        = text'.text.window first' (p.first + as.length) ++ p.output text.text := by
      show text'.text.window first' (p.opening + as.length) ++ _ = _
      rw [ht, window_joined as text.text hle hp.opens.le, Passage.output, List.append_assoc]
      rfl
    unfold segmentsOutput at hout ⊢
    rw [List.flatMap_cons, List.flatMap_cons, List.append_assoc, hout, hwrite]
    simp only [List.append_assoc]

end SpanScript
