import SpanScript.Proofs.Eval.Makes
import SpanScript.Proofs.Session.Elements
import SpanScript.Proofs.Text.Pieces

/-!
# Cutting, joining and replacing

`SPLIT`, `JOIN` and `REPLACE` as a program calls them.  A text that is cut at another one and
joined with a third is the text with the third in the place of the second.  A text that is cut into
words is cut into the same words once these are joined with a blank.

* `Session.pieces_agree`: what the three functions make of each other's answers.
-/

namespace SpanScript.Session

open Blank

/-- **Cutting and joining agree with replacing.**

In a session that can come about, and wherever any of its statements evaluates, executes or calls
anything, no function has the name of a built-in one.  In such a store let three expressions give
the texts `x`, `y` and `z`, and one more a blank.

If `y` is not empty, `SPLIT` of `x` and `y` gives a row of texts none of which contains `y`.
Joined with `y` they give `x`, and joined with `z` what `REPLACE` of `x`, `y` and `z` gives.

`SPLIT` of `x` alone gives the words of `x`, none of which is empty or has white space in it, and
there are none if `x` is white space and only then.  Joined with a blank they give a text that is
the same when it is cut into words and joined with a blank again. -/
theorem pieces_agree {session : Session} (hs : session.Reachable) :
    (session.store.Unshadowed ∧ session.Passes fun t u => t.Unshadowed ∧ u.Unshadowed) ∧
    ∀ s : Store, s.Unshadowed → ∀ chain (x y z : String) e f g blank k,
      s.GivesText chain e x k → s.GivesText chain f y k → s.GivesText chain g z k →
      s.GivesText chain blank " " k → ∀ loc₁ loc₂ loc₃ loc₄,
      let split (es : List Expr) := Expr.call loc₁ "SPLIT" (es.map .positional)
      let join (a b : Expr) := Expr.call loc₂ "JOIN" [.positional a, .positional b]
      let replaced := Expr.call loc₃ "REPLACE" [.positional e, .positional f, .positional g]
      let rejoined := Expr.call loc₄ "JOIN"
        [.positional (split [join (split [e]) blank]), .positional blank]
      (y ≠ "" → ∃ pieces,
        s.GivesTexts chain (split [e, f]) pieces (k + 2) ∧
        (∀ p ∈ pieces, ¬ y.toList <:+: p) ∧
        s.GivesText chain (join (split [e, f]) f) x (k + 4) ∧
        ∃ answer, s.GivesText chain (join (split [e, f]) g) answer (k + 4) ∧
          s.GivesText chain replaced answer (k + 2)) ∧
      ∃ ws,
        s.GivesTexts chain (split [e]) ws (k + 2) ∧
        Worded ws x.toList ∧
        (∀ w ∈ ws, w ≠ [] ∧ ∀ c ∈ w, isBlank c = false) ∧
        (ws = [] ↔ ∀ c ∈ x.toList, isBlank c = true) ∧
        ∃ answer, s.GivesText chain (join (split [e]) blank) answer (k + 4) ∧
          s.GivesText chain rejoined answer (k + 8) := by
  have hunshadowed : session.store.Unshadowed := hs.apart.unshadowed
  refine ⟨⟨hunshadowed, passes_of_invariant Store.invariant_unshadowed (fun _ h => h) hunshadowed
    fun _ _ ht hu => ⟨ht, hu⟩⟩, ?_⟩
  intro s hu chain x y z e f g blank k he hf hg hblank loc₁ loc₂ loc₃ loc₄ split join replaced
    rejoined
  refine ⟨fun hy => ?_, ?_⟩
  · have hne : y.toList ≠ [] := by simpa using hy
    have hcut : s.GivesTexts chain (split [e, f]) (Separator.cut y.toList x.toList) (k + 2) :=
      Store.givesTexts_cut hu he hf hy
    refine ⟨_, hcut, fun p hp => Separator.not_infix_of_mem_cut hne hp, ?_, _, ?_,
      Store.givesText_replace hu he hf hg⟩
    · have hself : s.GivesText chain (join (split [e, f]) f) _ (k + 4) :=
        Store.givesText_join hu hcut (hf.mono (Nat.le_add_right k 2))
      rwa [Separator.join_cut_self hne, String.ofList_toList] at hself
    · have hother : s.GivesText chain (join (split [e, f]) g) _ (k + 4) :=
        Store.givesText_join hu hcut (hg.mono (Nat.le_add_right k 2))
      rwa [Separator.join_cut hne] at hother
  · have hworded : Worded (words x.toList) x.toList := words_eq_iff.mp rfl
    have hwords : s.GivesTexts chain (split [e]) (words x.toList) (k + 2) :=
      Store.givesTexts_words hu he
    have hjoin : s.GivesText chain (join (split [e]) blank)
        (String.ofList (Separator.join [' '] (words x.toList))) (k + 4) :=
      Store.givesText_join hu hwords (hblank.mono (by omega))
    -- the words are cut out of the text that they were joined to
    have hagain : s.GivesTexts chain (split [join (split [e]) blank]) (words x.toList) (k + 6) := by
      have hcut : s.GivesTexts chain (split [join (split [e]) blank]) _ (k + 6) :=
        Store.givesTexts_words hu hjoin
      rwa [String.toList_ofList, words_join_words] at hcut
    exact ⟨_, hwords, hworded, hworded.isWord, hworded.eq_nil_iff, _, hjoin,
      Store.givesText_join hu hagain (hblank.mono (by omega))⟩

/-- After `STR: s = "aaa"` the pieces of `s` at `aa` are joined to `s` by `aa`, and by `b` to what
`REPLACE` gives; `SPLIT(" ")` gives no words. -/
theorem pieces_agree_overlap :
    let text (x : String) : Expr := .literal ⟨1, 1⟩ (.str x)
    let s := ((start "t").after (.assign ⟨1, 1⟩ "s" (text "aaa") (some "STR"))).store
    let split (e f : Expr) := Expr.call ⟨1, 1⟩ "SPLIT" [.positional e, .positional f]
    let join (e f : Expr) := Expr.call ⟨1, 1⟩ "JOIN" [.positional e, .positional f]
    let replaced := Expr.call ⟨1, 1⟩ "REPLACE"
      [.positional (.name ⟨1, 1⟩ "s"), .positional (text "aa"), .positional (text "b")]
    let pieces := split (.name ⟨1, 1⟩ "s") (text "aa")
    s.GivesText Store.globalChain (join pieces (text "aa")) "aaa" 5 ∧
    (∃ answer, s.GivesText Store.globalChain (join pieces (text "b")) answer 5 ∧
      s.GivesText Store.globalChain replaced answer 3) ∧
    s.GivesTexts Store.globalChain (.call ⟨1, 1⟩ "SPLIT" [.positional (text " ")]) [] 3 := by
  intro text s split join replaced pieces
  obtain ⟨⟨hu, -⟩, hall⟩ := pieces_agree ((reachable_start "t").after
    (.assign ⟨1, 1⟩ "s" (text "aaa") (some "STR")))
  have htext (x : String) : s.GivesText Store.globalChain (text x) x 1 :=
    s.givesText_literal Store.globalChain ⟨1, 1⟩ x
  have hname : s.GivesText Store.globalChain (.name ⟨1, 1⟩ "s") "aaa" 1 :=
    Store.givesText_name rfl ⟨1, 1⟩
  obtain ⟨hcut, -⟩ := hall s hu Store.globalChain "aaa" "aa" "b" _ _ _ _ 1 hname (htext "aa")
    (htext "b") (htext " ") ⟨1, 1⟩ ⟨1, 1⟩ ⟨1, 1⟩ ⟨1, 1⟩
  obtain ⟨-, ws, hws, -, -, hnone, -⟩ := hall s hu Store.globalChain " " "aa" "b" _ _ _ _ 1
    (htext " ") (htext "aa") (htext "b") (htext " ") ⟨1, 1⟩ ⟨1, 1⟩ ⟨1, 1⟩ ⟨1, 1⟩
  obtain ⟨_, -, -, hself, hother⟩ := hcut (by decide)
  obtain rfl := hnone.mpr (List.forall_mem_singleton.mpr rfl)
  exact ⟨hself, hother, hws⟩

end SpanScript.Session
