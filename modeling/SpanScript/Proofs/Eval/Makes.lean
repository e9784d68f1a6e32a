import SpanScript.Proofs.Eval.Gives

/-!
# Expressions that make texts

An expression that holds a new tensor does not leave the store as it is, so what it gives is told
together with the store that it leaves.  Arguments are then evaluated one after the other, each in
the store that the one before it left.

All that cutting and joining of texts leaves behind is more tensors.  `GivesText` asks for no more
than that, and for the same text wherever there are more tensors, so that one such expression may
be an argument beside another.

* `Store.Makes`, `makes_call`: a call of a built-in function, whatever its arguments leave.
* `Store.GivesText`, `Store.GivesTexts`: expressions that give a text, or a row of texts.
* `givesTexts_cut`, `givesTexts_words`, `givesText_join`, `givesText_replace`: the calls.
-/

namespace SpanScript

open Run

namespace Store

variable {s t u : Store} {chain : Chain} {e f g : Expr} {v r : Value} {least more : Nat}
  {loc : Location}

/-! ## Calls -/

/-- With so many levels left, or more, an expression evaluates to a value and leaves the store
`t`. -/
def Makes (s : Store) (chain : Chain) (e : Expr) (v : Value) (least : Nat) (t : Store) : Prop :=
  ∀ turns levels, least ≤ levels → ((machine turns levels).eval chain e).run.run s = (.ok v, t)

theorem Makes.mono (h : s.Makes chain e v least t) (hmore : least ≤ more) :
    s.Makes chain e v more t :=
  fun turns levels hlevels => h turns levels (Nat.le_trans hmore hlevels)

/-- Expressions are evaluated one after the other, each in the store that the one before it
left. -/
inductive MakesEach (chain : Chain) (least : Nat) : Store → List Expr → List Value → Store → Prop
  | nil {s : Store} : MakesEach chain least s [] [] s
  | cons {s t u : Store} {e : Expr} {v : Value} {es : List Expr} {vs : List Value} :
      s.Makes chain e v least t → MakesEach chain least t es vs u →
      MakesEach chain least s (e :: es) (v :: vs) u

theorem MakesEach.run_arguments {turns levels : Nat} (hlevels : least ≤ levels) (loc : Location)
    {es : List Expr} {vs : List Value} (h : MakesEach chain least s es vs t) :
    ∀ before : List Value,
      ((machine turns levels).arguments chain loc (es.map .positional) ⟨before, []⟩).run.run s
        = (.ok ⟨before ++ vs, []⟩, t) := by
  induction h with
  | nil =>
    intro before
    rw [List.append_nil]
    rfl
  | @cons s t u e v es vs hv _ ih =>
    intro before
    rw [List.map_cons, Machine.arguments, run_bind, hv turns levels hlevels]
    show ((machine turns levels).arguments chain loc (es.map .positional)
      ⟨before ++ [v], []⟩).run.run t = _
    rw [ih, List.append_assoc]
    rfl

/-- **A built-in function gives its answer** in the store that its arguments leave. -/
theorem makes_call (op : Builtin) (hop : op.takesName = false) (es : List Expr) {vs : List Value}
    (hargs : MakesEach chain least s es vs t) (hnone : t.function? op.name = none)
    (happly : ∀ readable, (op.apply readable loc vs).run.run t = (.ok r, u)) :
    s.Makes chain (.call loc op.name (es.map .positional)) r (least + 2) u := by
  intro turns levels hlevels
  obtain ⟨levels, rfl⟩ : ∃ k, levels = k + 1 := ⟨levels - 1, by omega⟩
  have hfilter : (some op).filter Builtin.takesName = none := by
    rw [Option.filter_some, hop]
    rfl
  rw [eval_machine, Machine.evalRule, Machine.call, Builtin.ofName?_name]
  simp only [hfilter]
  rw [under_machine, run_bind, hargs.run_arguments (by show least ≤ levels - 1; omega) loc]
  simp only [run_get, hnone]
  exact happly _

/-! ## Texts -/

/-- In a store, and wherever more tensors are held, an expression evaluates to a text, and all that
it leaves behind is more tensors. -/
def GivesText (s : Store) (chain : Chain) (e : Expr) (x : String) (least : Nat) : Prop :=
  ∀ t, s.Spares t → ∃ u, t.Spares u ∧ t.Makes chain e (.str x) least u

structure IsTexts (s : Store) (ref : TensorRef) (xs : List (List Char)) : Prop where
  held : ref < s.tensors.size
  shape : (s.tensor ref).shape = [xs.length]
  cells : (s.tensor ref).cells.toList = xs.map fun x => .str (String.ofList x)

/-- In a store, and wherever more tensors are held, an expression evaluates to a row of texts, and
all that it leaves behind is more tensors. -/
def GivesTexts (s : Store) (chain : Chain) (e : Expr) (xs : List (List Char)) (least : Nat) :
    Prop :=
  ∀ t, s.Spares t → ∃ u ref, t.Spares u ∧ u.IsTexts ref xs ∧ t.Makes chain e (.tns ref) least u

variable {x y z : String} {xs : List (List Char)}

theorem GivesText.mono (h : s.GivesText chain e x least) (hmore : least ≤ more) :
    s.GivesText chain e x more := by
  intro t hst
  obtain ⟨u, htu, hu⟩ := h t hst
  exact ⟨u, htu, hu.mono hmore⟩

theorem givesText_literal (s : Store) (chain : Chain) (place : Location) (x : String) :
    s.GivesText chain (.literal place (.str x)) x 1 :=
  fun t _ => ⟨t, .refl t, t.gives_literal chain place (.str x)⟩

/-- A name gives the text that it is bound to. -/
theorem givesText_name (h : s.get? chain x = some (.str y)) (place : Location) :
    s.GivesText chain (.name place x) y 1 := by
  intro t hst
  refine ⟨t, .refl t, fun turns levels hlevels => ?_⟩
  obtain ⟨levels, rfl⟩ : ∃ k, levels = k + 1 := ⟨levels - 1, by omega⟩
  rw [eval_machine, Machine.evalRule, run_get, hst.get?, h]
  rfl

theorem IsTexts.of_spares {ref : TensorRef} (h : s.IsTexts ref xs) (hst : s.Spares t) :
    t.IsTexts ref xs where
  held := Nat.lt_of_lt_of_le h.held hst.size
  shape := by rw [hst.tensors ref h.held, h.shape]
  cells := by rw [hst.tensors ref h.held, h.cells]

theorem isTexts_rowOfTexts (s : Store) (xs : List (List Char)) :
    (s.addTensor (Builtin.rowOfTexts xs)).IsTexts s.tensors.size xs where
  held := by
    rw [Store.addTensor, Array.size_push]
    exact Nat.lt_succ_self _
  shape := by
    rw [tensor_addTensor, if_pos rfl]
    exact congrArg (fun n => [n]) (List.length_map _)
  cells := by
    rw [tensor_addTensor, if_pos rfl]
    rfl

/-- A call that holds a new row of texts when its arguments are texts. -/
theorem givesTexts_call (hs : s.Unshadowed) (op : Builtin) (hop : op.takesName = false)
    (es : List Expr) (vs : List Value)
    (hargs : ∀ t, s.Spares t → ∃ u, t.Spares u ∧ MakesEach chain least t es vs u)
    (happly : ∀ (u : Store) readable, (op.apply readable loc vs).run.run u
      = (.ok (.tns u.tensors.size), u.addTensor (Builtin.rowOfTexts xs))) :
    s.GivesTexts chain (.call loc op.name (es.map .positional)) xs (least + 2) := by
  intro t hst
  obtain ⟨u, htu, hes⟩ := hargs t hst
  have hnone := (hst.trans htu).unshadowed hs op
  exact ⟨_, _, htu.trans (.addTensor u _), u.isTexts_rowOfTexts xs,
    makes_call op hop es hes hnone (happly u)⟩

/-- **A text that is cut at another one** gives a row of pieces. -/
theorem givesTexts_cut (hs : s.Unshadowed) (he : s.GivesText chain e x least)
    (hf : s.GivesText chain f y least) (hy : y ≠ "") :
    s.GivesTexts chain (.call loc "SPLIT" [.positional e, .positional f])
      (Separator.cut y.toList x.toList) (least + 2) := by
  refine givesTexts_call hs .split rfl [e, f] [.str x, .str y] (fun t hst => ?_)
    fun u readable => ?_
  · obtain ⟨u, htu, hx⟩ := he t hst
    obtain ⟨w, huw, hy⟩ := hf u (hst.trans htu)
    exact ⟨w, htu.trans huw, .cons hx (.cons hy .nil)⟩
  · show (if y.isEmpty then Run.fail .emptySeparator loc
      else newTensor (Builtin.rowOfTexts (Separator.cut y.toList x.toList)) : Run Value).run.run u
        = _
    rw [if_neg (by simpa using hy)]
    rfl

/-- **A text that is cut at white space** gives the row of its words. -/
theorem givesTexts_words (hs : s.Unshadowed) (he : s.GivesText chain e x least) :
    s.GivesTexts chain (.call loc "SPLIT" [.positional e]) (Blank.words x.toList) (least + 2) := by
  refine givesTexts_call hs .split rfl [e] [.str x] (fun t hst => ?_)
    fun _ _ => rfl
  obtain ⟨u, htu, hx⟩ := he t hst
  exact ⟨u, htu, .cons hx .nil⟩

theorem mapM_text_texts (s : Store) (readable : Nat) : ∀ xs : List (List Char),
    ((xs.map fun x => Value.str (String.ofList x)).mapM (Run.text readable)).run.run s
      = (.ok (xs.map String.ofList), s) := by
  intro xs
  induction xs with
  | nil => rfl
  | cons x xs ih =>
    have htext : (Run.text readable (.str (String.ofList x))).run.run s
        = (.ok (String.ofList x), s) := by
      cases readable <;> rfl
    rw [List.map_cons, List.mapM_cons, run_bind, htext]
    dsimp only
    rw [run_bind, ih]
    rfl

/-- **A row of texts that is joined** gives a text. -/
theorem givesText_join (hs : s.Unshadowed) (he : s.GivesTexts chain e xs least)
    (hf : s.GivesText chain f y least) :
    s.GivesText chain (.call loc "JOIN" [.positional e, .positional f])
      (String.ofList (Separator.join y.toList xs)) (least + 2) := by
  intro t hst
  obtain ⟨u, ref, htu, hxs, hmake⟩ := he t hst
  obtain ⟨w, huw, hy⟩ := hf u (hst.trans htu)
  have htw := htu.trans huw
  refine ⟨w, htw, makes_call .join rfl [e, f] (.cons hmake (.cons hy .nil))
    ((hst.trans htw).unshadowed hs .join) fun readable => ?_⟩
  show ((w.tensor ref).cells.toList.mapM (Run.text readable) >>= fun texts =>
    pure (Value.str (String.ofList (Separator.join y.toList (texts.map String.toList))))
    : Run Value).run.run w = _
  rw [(hxs.of_spares huw).cells, run_bind, mapM_text_texts]
  dsimp only
  rw [List.map_map]
  have hsame : String.toList ∘ String.ofList = id := funext fun _ => String.toList_ofList
  rw [hsame, List.map_id]
  rfl

/-- A text in which another one is replaced gives a text. -/
theorem givesText_replace (hs : s.Unshadowed) (he : s.GivesText chain e x least)
    (hf : s.GivesText chain f y least) (hg : s.GivesText chain g z least) :
    s.GivesText chain (.call loc "REPLACE" [.positional e, .positional f, .positional g])
      (String.ofList (Separator.replace y.toList z.toList x.toList)) (least + 2) := by
  intro t hst
  obtain ⟨u₁, h₁, hx⟩ := he t hst
  obtain ⟨u₂, h₂, hy⟩ := hf u₁ (hst.trans h₁)
  obtain ⟨u₃, h₃, hz⟩ := hg u₂ ((hst.trans h₁).trans h₂)
  have hts := (h₁.trans h₂).trans h₃
  exact ⟨u₃, hts, makes_call .replace rfl [e, f, g] (.cons hx (.cons hy (.cons hz .nil)))
    ((hst.trans hts).unshadowed hs .replace) fun _ => rfl⟩

end Store

end SpanScript
