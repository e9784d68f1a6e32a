import Mathlib.Data.List.Infix
import SpanScript.Text.Blank
import SpanScript.Text.Separator

/-!
# Cutting and joining

Two walks go over a text from one occurrence of a separator to the next: one cuts the text there,
and one puts another text there.  They skip the same characters, so to join the pieces with a text
is to put that text in the place of each occurrence.  With the separator itself for that text
nothing changes, and the pieces are joined to the text they were cut from.

Words are what is left between white space.  `Worded` says so without a walk: words are not empty
and have no white space in them, and there is white space between each and the next.

* `Separator.join_cut`, `Separator.join_cut_self`: joined pieces.
* `Separator.not_infix_of_mem_cut`: no piece contains the separator.
* `Blank.words_eq_iff`: the words of a text.
* `Blank.words_join_words`: words with a blank between each and the next are cut into the same
  words.
-/

namespace SpanScript

/-! ## Separators -/

namespace Separator

variable {sep new cs x : List Char}

/-- There is a first piece, and the text begins with it. -/
theorem exists_cutFrom (sep : List Char) : ∀ (cs : List Char) (skip : Nat),
    ∃ p ps, cutFrom sep skip cs = p :: ps ∧ p <+: cs.drop skip := by
  intro cs
  induction cs with
  | nil =>
    intro skip
    cases skip <;> exact ⟨[], [], rfl, List.nil_prefix⟩
  | cons c rest ih =>
    intro skip
    cases skip with
    | succ skip => exact ih skip
    | zero =>
      rw [cutFrom]
      split
      · exact ⟨[], _, rfl, List.nil_prefix⟩
      · obtain ⟨p, ps, h, hp⟩ := ih 0
        rw [h]
        exact ⟨c :: p, ps, rfl, List.cons_prefix_cons.mpr ⟨rfl, hp⟩⟩

theorem join_cons (sep p : List Char) {ps : List (List Char)} (h : ps ≠ []) :
    join sep (p :: ps) = p ++ sep ++ join sep ps := by
  cases ps with
  | nil => exact absurd rfl h
  | cons q ps => rw [join]

theorem join_consHead (sep : List Char) (c : Char) (p : List Char) (ps : List (List Char)) :
    join sep (consHead c (p :: ps)) = c :: join sep (p :: ps) := by
  cases ps <;> rfl

/-- The walk that cuts and the walk that replaces go side by side. -/
theorem join_cutFrom (sep new : List Char) : ∀ (cs : List Char) (skip : Nat),
    join new (cutFrom sep skip cs) = replaceFrom sep new skip cs := by
  intro cs
  induction cs with
  | nil => intro skip; cases skip <;> rfl
  | cons c rest ih =>
    intro skip
    cases skip with
    | succ skip => exact ih skip
    | zero =>
      rw [cutFrom, replaceFrom]
      split
      · obtain ⟨p, ps, h, -⟩ := exists_cutFrom sep rest (sep.length - 1)
        rw [join_cons _ _ (by rw [h]; exact List.cons_ne_nil _ _), ih, List.nil_append]
      · obtain ⟨p, ps, h, -⟩ := exists_cutFrom sep rest 0
        rw [h, join_consHead, ← h, ih]

/-- **Joined pieces** are the text with another one in the place of the separator. -/
theorem join_cut (hsep : sep ≠ []) (new cs : List Char) :
    join new (cut sep cs) = replace sep new cs := by
  rw [cut, replace, if_neg (by simpa using hsep)]
  exact join_cutFrom sep new cs 0

theorem replaceFrom_self (hsep : sep ≠ []) : ∀ (cs : List Char) (skip : Nat),
    replaceFrom sep sep skip cs = cs.drop skip := by
  intro cs
  induction cs with
  | nil => intro skip; cases skip <;> rfl
  | cons c rest ih =>
    intro skip
    cases skip with
    | succ skip => exact ih skip
    | zero =>
      rw [replaceFrom]
      split
      · next h =>
        -- the occurrence is put there, and what is behind it follows
        obtain ⟨behind, hbehind⟩ := List.isPrefixOf_iff_prefix.mp h
        obtain ⟨a, tail, rfl⟩ := List.exists_cons_of_ne_nil hsep
        rw [List.cons_append] at hbehind
        obtain ⟨rfl, rfl⟩ := List.cons.inj hbehind
        rw [ih, List.length_cons, Nat.add_sub_cancel, List.drop_left]
        rfl
      · rw [ih]
        rfl

/-- **The pieces joined with the separator** are the text. -/
theorem join_cut_self (hsep : sep ≠ []) (cs : List Char) : join sep (cut sep cs) = cs := by
  rw [cut, join_cutFrom, replaceFrom_self hsep, List.drop_zero]

theorem not_infix_of_mem_cutFrom (hsep : sep ≠ []) : ∀ (cs : List Char) (skip : Nat),
    ∀ x ∈ cutFrom sep skip cs, ¬ sep <:+: x := by
  have hnil : ¬ sep <:+: [] := fun h => hsep (List.infix_nil.mp h)
  intro cs
  induction cs with
  | nil =>
    intro skip x hx
    obtain rfl : x = [] := by cases skip <;> exact List.mem_singleton.mp hx
    exact hnil
  | cons c rest ih =>
    intro skip x hx
    cases skip with
    | succ skip => exact ih skip x hx
    | zero =>
      rw [cutFrom] at hx
      split at hx
      · rcases List.mem_cons.mp hx with rfl | hx
        · exact hnil
        · exact ih _ x hx
      · next h =>
        obtain ⟨p, ps, hcut, hp⟩ := exists_cutFrom sep rest 0
        rw [hcut] at hx
        rcases List.mem_cons.mp hx with rfl | hx
        · -- the longer piece begins the text, where the separator does not stand
          intro hinfix
          rcases List.infix_cons_iff.mp hinfix with hbegins | hinfix
          · exact h (List.isPrefixOf_iff_prefix.mpr
              (hbegins.trans (List.cons_prefix_cons.mpr ⟨rfl, hp⟩)))
          · exact ih 0 p (by rw [hcut]; exact List.mem_cons_self) hinfix
        · exact ih 0 x (by rw [hcut]; exact List.mem_cons_of_mem _ hx)

/-- **No piece contains the separator.** -/
theorem not_infix_of_mem_cut (hsep : sep ≠ []) (hx : x ∈ cut sep cs) : ¬ sep <:+: x :=
  not_infix_of_mem_cutFrom hsep cs 0 x hx

end Separator

/-! ## Words -/

namespace Blank

/-- A word is not empty and has no white space in it. -/
def IsWord (w : List Char) : Prop := w ≠ [] ∧ ∀ c ∈ w, isBlank c = false

/-- A text is made of the words, with white space between each and the next, and maybe more of it
anywhere between them and at the ends. -/
inductive Worded : List (List Char) → List Char → Prop
  | nil : Worded [] []
  | blank {c : Char} {ws : List (List Char)} {cs : List Char} : isBlank c = true →
      Worded ws cs → Worded ws (c :: cs)
  | word {w : List Char} {ws : List (List Char)} {cs : List Char} : IsWord w →
      (∀ c ∈ cs.head?, isBlank c = true) → Worded ws cs → Worded (w :: ws) (w ++ cs)

variable {w cs : List Char} {ws : List (List Char)} {c : Char}

/-! ### What the words are -/

theorem words_blank (h : isBlank c = true) : words (c :: cs) = words cs := by
  rw [words, pieces, if_pos h]
  rfl

/-- Characters that are no white space go to the first piece. -/
theorem pieces_append {p : List Char} {ps : List (List Char)} (hp : pieces cs = p :: ps) :
    ∀ w : List Char, (∀ c ∈ w, isBlank c = false) → pieces (w ++ cs) = (w ++ p) :: ps := by
  intro w
  induction w with
  | nil => exact fun _ => hp
  | cons c w ih =>
    intro h
    obtain ⟨hc, hw⟩ := List.forall_mem_cons.mp h
    rw [List.cons_append, pieces, if_neg (by rw [hc]; exact Bool.false_ne_true), ih hw]
    rfl

theorem words_append (hw : IsWord w) (h : ∀ c ∈ cs.head?, isBlank c = true) :
    words (w ++ cs) = w :: words cs := by
  obtain ⟨ps, hps⟩ : ∃ ps, pieces cs = [] :: ps := by
    cases cs with
    | nil => exact ⟨[], rfl⟩
    | cons c cs => exact ⟨pieces cs, by rw [pieces, if_pos (h c rfl)]⟩
  rw [words, words, pieces_append hps w hw.2, hps, List.append_nil,
    List.filter_cons_of_pos (by simpa using hw.1)]
  rfl

theorem words_of_worded (h : Worded ws cs) : words cs = ws := by
  induction h with
  | nil => rfl
  | blank hc _ ih => rw [words_blank hc, ih]
  | word hw hcs _ ih => rw [words_append hw hcs, ih]

/-- A character that is no white space makes the first word longer, or is a word. -/
theorem Worded.cons (hc : isBlank c = false) (h : Worded ws cs) :
    ∃ ws', Worded ws' (c :: cs) := by
  have hone : IsWord [c] := ⟨List.cons_ne_nil _ _, List.forall_mem_singleton.mpr hc⟩
  cases h with
  | nil => exact ⟨[[c]], @Worded.word [c] [] [] hone nofun .nil⟩
  | @blank b ws cs hb h =>
    refine ⟨[c] :: ws, @Worded.word [c] ws (b :: cs) hone (fun a ha => ?_) (.blank hb h)⟩
    obtain rfl := Option.some.inj ha
    exact hb
  | @word w ws cs hw hcs h =>
    have hlong : IsWord (c :: w) :=
      ⟨List.cons_ne_nil _ _, List.forall_mem_cons.mpr ⟨hc, hw.2⟩⟩
    exact ⟨(c :: w) :: ws, .word hlong hcs h⟩

theorem exists_worded : ∀ cs : List Char, ∃ ws, Worded ws cs := by
  intro cs
  induction cs with
  | nil => exact ⟨[], .nil⟩
  | cons c cs ih =>
    obtain ⟨ws, h⟩ := ih
    cases hc : isBlank c with
    | true => exact ⟨ws, .blank hc h⟩
    | false => exact h.cons hc

/-- **The words of a text** are the ones that it is made of. -/
theorem words_eq_iff : words cs = ws ↔ Worded ws cs := by
  refine ⟨?_, words_of_worded⟩
  rintro rfl
  obtain ⟨ws, h⟩ := exists_worded cs
  rwa [words_of_worded h]

/-! ### What words are like -/

theorem Worded.isWord (h : Worded ws cs) : ∀ w ∈ ws, IsWord w := by
  induction h with
  | nil => exact fun _ hw => absurd hw List.not_mem_nil
  | blank _ _ ih => exact ih
  | word hw _ _ ih => exact List.forall_mem_cons.mpr ⟨hw, ih⟩

/-- There are no words in white space, and nowhere else. -/
theorem Worded.eq_nil_iff (h : Worded ws cs) : ws = [] ↔ ∀ c ∈ cs, isBlank c = true := by
  induction h with
  | nil => exact ⟨fun _ _ hc => absurd hc List.not_mem_nil, fun _ => rfl⟩
  | blank hc _ ih => rw [ih, List.forall_mem_cons, and_iff_right hc]
  | @word w ws cs hw _ _ _ =>
    refine ⟨fun h => absurd h (List.cons_ne_nil _ _), fun h => ?_⟩
    obtain ⟨c, hc⟩ := List.exists_mem_of_ne_nil w hw.1
    have hblank := h c (List.mem_append_left cs hc)
    rw [hw.2 c hc] at hblank
    cases hblank

theorem worded_join : ∀ ws : List (List Char), (∀ w ∈ ws, IsWord w) →
    Worded ws (Separator.join [' '] ws) := by
  intro ws
  induction ws with
  | nil => exact fun _ => .nil
  | cons w ws ih =>
    intro h
    obtain ⟨hw, hws⟩ := List.forall_mem_cons.mp h
    cases ws with
    | nil =>
      have hone : Worded [w] (w ++ []) := .word hw nofun .nil
      rwa [List.append_nil] at hone
    | cons v ws =>
      rw [Separator.join, List.append_assoc]
      have hblank : isBlank ' ' = true := by decide
      refine .word hw (fun c hc => ?_) (.blank hblank (ih hws))
      obtain rfl := Option.some.inj hc
      exact hblank

/-- **Words with a blank between each and the next** are cut into the same words. -/
theorem words_join_words (cs : List Char) : words (Separator.join [' '] (words cs)) = words cs :=
  words_eq_iff.mpr (worded_join _ (words_eq_iff.mp rfl).isWord)

end Blank

end SpanScript
