import SpanScript.Proofs.Eval.Gives
import SpanScript.Proofs.Session.Elements
import SpanScript.Proofs.Syntax.Printed
import SpanScript.Proofs.Value.Equality

/-!
# Printed integers read back

The text of an integer is one number token, it is parsed as a literal for the integer, and `INT`
reads it back.  The text of a row of integers is parsed as a tensor literal, and this evaluates to
a new tensor that is equal to the row.

* `Store.gives_str`, `Store.gives_int`: the two conversions.
* `Cursor.tokens_integer`: the tokens of a printed integer.
* `Store.text_row`: the text of a row.
* `Machine.eval_row`, `Store.equal_row`: its literal, and what it is equal to.
* `Session.printed_reads_back`: all of it.
-/

namespace SpanScript

open Run Alphabet

/-! ## Conversions -/

namespace Store

variable {s : Store} {chain : Chain} {e : Expr} {n : Int} {t : String} {k : Nat} {loc : Location}

/-- `STR` gives the text of an integer. -/
theorem gives_str (hu : s.Unshadowed) (he : s.Gives chain e (.int n) k)
    (ht : integerText n = .ok t) :
    s.Gives chain (.call loc "STR" [.positional e]) (.str t) (k + 2) := by
  refine gives_call hu .str rfl [e] (.cons he .nil) fun readable => ?_
  show (Run.text readable (.int n) >>= fun t => pure (.str t) : Run Value).run.run s = _
  rw [Run.text, Run.ofStore, bind_assoc, run_get, text_int, ht]
  rfl

/-- `INT` reads the text of an integer. -/
theorem gives_int (hu : s.Unshadowed) (he : s.Gives chain e (.str t) k)
    (ht : integerText n = .ok t) :
    s.Gives chain (.call loc "INT" [.positional e]) (.int n) (k + 2) := by
  obtain ⟨hn, rfl⟩ := integerText_eq_ok_iff.mp ht
  refine gives_call hu .int rfl [e] (.cons he .nil) fun readable => ?_
  show (Builtin.convertValue readable loc .int (.str (toString n))).run.run s = _
  have hread : Builtin.convert? .int (.str (toString n)) = some (.int n) := by
    rw [Builtin.convert?, Builtin.toInt?_toString hn]
    rfl
  rw [Builtin.convertValue, hread]
  · rfl
  · nofun

end Store

/-! ## Tokens -/

namespace Cursor

/-- **A printed integer between blanks is one token**, and behind it is the end. -/
theorem tokens_integer {c : Cursor} {n : Int} {w r : Bytes}
    (hc : c.rest = w ++ (Bytes.ofString (toString n) ++ r)) (hw : ∀ a ∈ w, isBlank a = true)
    (hr : ∀ a ∈ r, isBlank a = true) :
    let stop := c.offset + w.length + (Bytes.ofString (toString n)).length
    let close := stop + r.length
    c.tokens = ([⟨.number, toString n, c.location.after w, c.offset + w.length, stop⟩,
      ⟨.eof, "", c.location.after c.rest, close, close⟩], .ok close) := by
  intro stop close
  have hfirst := next_integer hc hw (endsNumber_blanks hr)
  obtain ⟨d, hlast, hd⟩ := next_blanks
    (c := ⟨r, stop, c.location.after (w ++ Bytes.ofString (toString n))⟩) hr
  have hplace : (c.location.after (w ++ Bytes.ofString (toString n))).after r
      = c.location.after c.rest := by
    rw [← Location.after_append, hc, List.append_assoc]
  obtain ⟨fuel, hfuel⟩ : ∃ fuel, c.rest.length = fuel + 1 := by
    refine ⟨c.rest.length - 1, ?_⟩
    have hpos := List.length_pos_iff.mpr (Bytes.ofString_toString_ne_nil n)
    rw [hc, List.length_append, List.length_append]
    omega
  rw [tokens, hfuel, tokensWithin, hfirst]
  show (if TokenKind.number = .eof then _ else _) = _
  rw [if_neg nofun]
  show ((_ :: (tokensWithin (fuel + 1) ⟨r, stop, _⟩).1, (tokensWithin (fuel + 1) ⟨r, stop, _⟩).2)
    : List Token × Except LexFault Nat) = _
  rw [tokensWithin, hlast]
  show ((_ :: [_], .ok d.offset) : List Token × Except LexFault Nat) = _
  rw [hd, hplace]

end Cursor

/-! ## Rows -/

section

variable {turns levels least : Nat} {chain : Chain} {s : Store} {loc : Location}
  {es : List Expr} {vs : List Value} {ns : List Int} {ref : TensorRef}

structure Store.IsRow (s : Store) (ref : TensorRef) (ns : List Int) : Prop where
  shape : (s.tensor ref).shape = [ns.length]
  cells : (s.tensor ref).cells.toList = ns.map .int

theorem mapM_text (levels : Nat) (hns : ∀ n ∈ ns, n.natAbs < printLimit) :
    (ns.map Value.int).mapM (s.text levels) = .ok (ns.map toString) := by
  induction ns with
  | nil => rfl
  | cons n ns ih =>
    obtain ⟨hn, hns⟩ := List.forall_mem_cons.mp hns
    rw [List.map_cons, List.mapM_cons, Store.text_int, integerText_eq_ok_iff.mpr ⟨hn, rfl⟩, ih hns]
    rfl

/-- The text of a row. -/
theorem Store.text_row (h : s.IsRow ref ns) (hns : ∀ n ∈ ns, n.natAbs < printLimit)
    (levels : Nat) : s.text (levels + 1) (.tns ref) = .ok (rowText ns) := by
  rw [text_tns, h.cells, mapM_text levels hns]
  rfl

/-- Items that are no literals of tensors, and give values, are the cells of a row. -/
theorem Machine.run_rows (hlevels : least ≤ levels)
    (hvalues : List.Forall₂ (fun e v => s.Gives chain e v least) es vs)
    (hes : ∀ e ∈ es, ∀ loc items, e ≠ .tensor loc items) :
    ∀ inner : Option (List Nat), inner = none ∨ inner = some [] →
      ((machine turns levels).rows chain inner es).run.run s = (.ok ([], vs), s) := by
  induction hvalues with
  | nil =>
    intro inner hinner
    rcases hinner with rfl | rfl <;> rfl
  | @cons e v es vs hv _ ih =>
    intro inner hinner
    obtain ⟨he, hes⟩ := List.forall_mem_cons.mp hes
    have hcells : ((machine turns levels).cells chain e).run.run s = (.ok ([], [v]), s) := by
      rw [cells_of_ne_tensor _ _ he, run_bind, hv turns levels hlevels]
      rfl
    have hsame : inner.any (· != []) = false := by
      rcases hinner with rfl | rfl <;> rfl
    rw [rows, run_bind, hcells]
    dsimp only
    rw [hsame, if_neg Bool.false_ne_true, run_bind, ih hes (some []) (.inr rfl)]
    rfl

/-- **A tensor literal is a new row** of the values that its items give. -/
theorem Machine.eval_row (hlevels : least + 2 ≤ levels) (hne : es ≠ [])
    (hvalues : List.Forall₂ (fun e v => s.Gives chain e v least) es vs)
    (hes : ∀ e ∈ es, ∀ loc items, e ≠ .tensor loc items) :
    ((machine turns levels).eval chain (.tensor loc es)).run.run s
      = (.ok (.tns s.tensors.size), s.addTensor (.row vs)) := by
  obtain ⟨k, rfl⟩ : ∃ k, levels = k + 1 := ⟨levels - 1, by omega⟩
  have hempty : es.isEmpty = false := by
    cases es with
    | nil => exact absurd rfl hne
    | cons e es => rfl
  have hrows : (((machine turns k).under Weight.item).rows chain none es).run.run s
      = (.ok ([], vs), s) := by
    rw [under_machine]
    exact run_rows (by show least ≤ k - 1; omega) hvalues hes none (.inl rfl)
  have hcells : ((machine turns k).cells chain (.tensor loc es)).run.run s
      = (.ok ([es.length], vs), s) := by
    rw [cells, hempty, if_neg Bool.false_ne_true, run_bind, hrows]
    rfl
  rw [eval_machine, evalRule, run_bind, hcells, hvalues.length_eq]
  rfl

/-- Integers, written out, give themselves. -/
theorem gives_integers_of_isInteger (s : Store) (chain : Chain)
    (h : List.Forall₂ Expr.IsInteger es ns) :
    List.Forall₂ (fun e v => s.Gives chain e v 1) es (ns.map .int) := by
  induction h with
  | nil => exact .nil
  | cons he _ ih =>
    obtain ⟨place, rfl⟩ := he
    exact .cons (s.gives_literal chain place _) ih

theorem ne_tensor_of_isInteger (h : List.Forall₂ Expr.IsInteger es ns) :
    ∀ e ∈ es, ∀ loc items, e ≠ .tensor loc items := by
  induction h with
  | nil => exact fun e he => nomatch he
  | cons he _ ih =>
    obtain ⟨place, rfl⟩ := he
    exact List.forall_mem_cons.mpr ⟨nofun, ih⟩

/-- **Two rows of the same integers are equal.** -/
theorem Store.equal_row {p q : TensorRef} (hp : s.IsRow p ns) (hq : s.IsRow q ns) (levels : Nat) :
    s.equal (levels + 1) (.tns p) (.tns q) = .ok true := by
  have hall : ∀ ks : List Int,
      allEqual (s.equal levels) (ks.map .int) (ks.map .int) = .ok true := by
    intro ks
    induction ks with
    | nil => rfl
    | cons k ks ih =>
      have hk : s.equal levels (.int k) (.int k) = .ok true := by
        cases levels <;> exact congrArg Except.ok (beq_self_eq_true k)
      rw [List.map_cons, allEqual, hk]
      exact ih
  rw [equal, if_pos (hp.shape.trans hq.shape.symm), hp.cells, hq.cells]
  exact hall ns

/-- A new row leaves the rows that were there, and is one itself. -/
theorem Store.IsRow.addRow (h : s.IsRow ref ns) (hne : ns ≠ []) :
    (s.addTensor (.row (ns.map .int))).IsRow s.tensors.size ns ∧
      (s.addTensor (.row (ns.map .int))).IsRow ref ns := by
  have hold : ref ≠ s.tensors.size := by
    rintro rfl
    have hcells := h.cells
    rw [cells_of_size_le (Nat.le_refl _)] at hcells
    exact hne (List.map_eq_nil_iff.mp hcells.symm)
  have hnew := (s.tensor_addTensor (.row (ns.map .int)) s.tensors.size).trans (if_pos rfl)
  have hsame := (s.tensor_addTensor (.row (ns.map .int)) ref).trans (if_neg hold)
  refine ⟨⟨?_, ?_⟩, ⟨?_, ?_⟩⟩
  · rw [hnew]
    show [(ns.map Value.int).length] = _
    rw [List.length_map]
  · rw [hnew]
    rfl
  · rw [hsame, h.shape]
  · rw [hsame, h.cells]

end

/-- A cursor stands before a text between blanks, behind which nothing comes. -/
structure Cursor.Between (c : Cursor) (w : Bytes) (text : String) (r : Bytes) : Prop where
  rest : c.rest = w ++ (Bytes.ofString text ++ r)
  before : ∀ a ∈ w, isBlank a = true
  behind : ∀ a ∈ r, isBlank a = true

namespace Session

/-- **Printed integers read back.**

In a session that can come about, and wherever any of its statements evaluates, executes or calls
anything, no function has the name of a built-in one.  Let an integer have a text.  Between any
blanks that is one number token, which covers it exactly; it is parsed as the literal, and no more
is taken; and where an expression gives the integer, `STR` of it gives the text, and `INT` of that
gives the integer.

A row of integers that have texts has one, too.  Between any blanks that is parsed as a tensor
literal, and evaluated in a store that holds the row this gives a new tensor that is equal to it. -/
theorem printed_reads_back {session : Session} (hs : session.Reachable) :
    (session.store.Unshadowed ∧ session.Passes fun t u => t.Unshadowed ∧ u.Unshadowed) ∧
    (∀ n t, integerText n = .ok t →
      (∀ (c : Cursor) (w r : Bytes), c.Between w t r →
        let stop := c.offset + w.length + (Bytes.ofString t).length
        let close := stop + r.length
        c.tokens = ([⟨.number, t, c.location.after w, c.offset + w.length, stop⟩,
          ⟨.eof, "", c.location.after c.rest, close, close⟩], .ok close) ∧
        ∀ types nesting, 2 ≤ nesting → ∃ s, Reader.next types nesting (.start c)
          = (.ok (.evaluate (.literal (c.location.after w) (.int n))), s) ∧ s.endOffset = stop) ∧
      ∀ s : Store, s.Unshadowed → ∀ chain e k, s.Gives chain e (.int n) k → ∀ loc loc',
        let printed := Expr.call loc "STR" [.positional e]
        s.Gives chain printed (.str t) (k + 2) ∧
          s.Gives chain (.call loc' "INT" [.positional printed]) (.int n) (k + 4)) ∧
    ∀ (s : Store) (ref : TensorRef) (n : Int) (ns : List Int), s.IsRow ref (n :: ns) →
      (∀ k ∈ n :: ns, ∃ t, integerText k = .ok t) →
      (∀ levels, s.text (levels + 1) (.tns ref) = .ok (rowText (n :: ns))) ∧
      ∀ (c : Cursor) (w r : Bytes), c.Between w (rowText (n :: ns)) r →
        ∀ types nesting, 5 ≤ nesting → ∃ items u, Reader.next types nesting (.start c)
            = (.ok (.evaluate (.tensor (c.location.after w) items)), u) ∧
          u.endOffset = c.offset + w.length + (Bytes.ofString (rowText (n :: ns))).length ∧
          ∀ chain turns levels, 3 ≤ levels →
            let t := s.addTensor (.row ((n :: ns).map .int))
            ((machine turns levels).eval chain (.tensor (c.location.after w) items)).run.run s
              = (.ok (.tns s.tensors.size), t) ∧
            ∀ deep, t.equal (deep + 1) (.tns s.tensors.size) (.tns ref) = .ok true := by
  have hunshadowed : session.store.Unshadowed := hs.apart.unshadowed
  refine ⟨⟨hunshadowed, passes_of_invariant Store.invariant_unshadowed (fun _ h => h) hunshadowed
    fun _ _ ht hu => ⟨ht, hu⟩⟩, fun n t ht => ⟨?_, ?_⟩, ?_⟩
  · obtain ⟨hn, rfl⟩ := integerText_eq_ok_iff.mp ht
    intro c w r hc stop close
    refine ⟨Cursor.tokens_integer hc.rest hc.before hc.behind, fun types nesting hnesting => ?_⟩
    exact Reader.next_integer hn hc.rest hc.before hc.behind types hnesting
  · intro s hu chain e k he loc loc' printed
    have hprinted : s.Gives chain printed (.str t) (k + 2) := Store.gives_str hu he ht
    exact ⟨hprinted, Store.gives_int hu hprinted ht⟩
  · intro s ref n ns hrow htexts
    have hns : ∀ k ∈ n :: ns, k.natAbs < printLimit := by
      intro k hk
      obtain ⟨t, ht⟩ := htexts k hk
      exact (integerText_eq_ok_iff.mp ht).1
    refine ⟨Store.text_row hrow hns, fun c w r hc types nesting hnesting => ?_⟩
    obtain ⟨items, u, hints, hnext, hend⟩ :=
      Reader.next_row hns hc.rest hc.before hc.behind types hnesting
    refine ⟨items, u, hnext, hend, fun chain turns levels hlevels => ⟨?_, ?_⟩⟩
    · have hne : items ≠ [] := fun hnil => by
        rw [hnil] at hints
        cases hints
      exact Machine.eval_row hlevels hne (gives_integers_of_isInteger s chain hints)
        (ne_tensor_of_isInteger hints)
    · obtain ⟨hnew, hold⟩ := hrow.addRow (List.cons_ne_nil n ns)
      exact Store.equal_row hnew hold

/-- `-7` between blanks is one token and is parsed as the literal, `INT(STR(-7))` gives `-7`, and
after `TNS: t = [-7, 0]` the text of `t` is `[-7, 0]` and is parsed. -/
theorem printed_reads_back_negative :
    let integer (n : Int) : Expr := .literal ⟨1, 1⟩ (.int n)
    let s := ((start "t").after
      (.assign ⟨1, 1⟩ "t" (.tensor ⟨1, 1⟩ [integer (-7), integer 0]) (some "TNS"))).store
    (Cursor.mk [32, 45, 55, 9] 0 ⟨1, 1⟩).tokens
      = ([⟨.number, "-7", ⟨1, 2⟩, 1, 3⟩, ⟨.eof, "", ⟨1, 5⟩, 4, 4⟩], .ok 4) ∧
    s.Gives Store.globalChain (.call ⟨1, 1⟩ "INT" [.positional (.call ⟨1, 5⟩ "STR"
      [.positional (integer (-7))])]) (.int (-7)) 5 ∧
    s.text 1 (.tns 0) = .ok "[-7, 0]" ∧
    ∃ items u, Reader.next [] 5 (.start ⟨[91, 45, 55, 44, 32, 48, 93], 0, ⟨1, 1⟩⟩)
      = (.ok (.evaluate (.tensor ⟨1, 1⟩ items)), u) ∧ u.endOffset = 7 := by
  intro integer s
  obtain ⟨⟨hu, -⟩, hints, hrows⟩ := printed_reads_back ((reachable_start "t").after
    (.assign ⟨1, 1⟩ "t" (.tensor ⟨1, 1⟩ [integer (-7), integer 0]) (some "TNS")))
  have hseven : integerText (-7) = .ok "-7" := by decide +kernel
  have hzero : integerText 0 = .ok "0" := by decide +kernel
  obtain ⟨hlex, hgives⟩ := hints (-7) "-7" hseven
  obtain ⟨htokens, -⟩ := hlex ⟨[32, 45, 55, 9], 0, ⟨1, 1⟩⟩ [32] [9]
    ⟨by decide +kernel, List.forall_mem_singleton.mpr rfl, List.forall_mem_singleton.mpr rfl⟩
  obtain ⟨-, hback⟩ := hgives s hu Store.globalChain (integer (-7)) 1
    (s.gives_literal Store.globalChain ⟨1, 1⟩ (.int (-7))) ⟨1, 5⟩ ⟨1, 1⟩
  obtain ⟨htext, hparse⟩ := hrows s 0 (-7) [0] ⟨rfl, rfl⟩ fun k hk => by
    rcases List.mem_cons.mp hk with rfl | hk
    · exact ⟨_, hseven⟩
    · obtain rfl := List.mem_singleton.mp hk
      exact ⟨_, hzero⟩
  have hrow : rowText [-7, 0] = "[-7, 0]" := by decide +kernel
  rw [hrow] at htext hparse
  obtain ⟨items, u, hnext, hend, -⟩ := hparse ⟨[91, 45, 55, 44, 32, 48, 93], 0, ⟨1, 1⟩⟩ [] []
    ⟨by decide +kernel, nofun, nofun⟩ [] 5 (by decide)
  have hbytes : (Bytes.ofString "-7").length = 2 := by decide +kernel
  have hbytes' : (Bytes.ofString "[-7, 0]").length = 7 := by decide +kernel
  rw [hbytes] at htokens
  rw [hbytes'] at hend
  exact ⟨htokens, hback, htext 0, items, u, hnext, hend⟩

end Session

end SpanScript
