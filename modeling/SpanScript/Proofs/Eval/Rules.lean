import SpanScript.Proofs.Eval.Builtins
import SpanScript.Proofs.Eval.Open

/-!
# The rule of expressions

In every accord for evaluation the rule of expressions goes alike on both sides, over two
machines that evaluate expressions alike.  What is done to call a function of the program is
left open: an accord in which such calls are watched, or never made, is an accord like any
other.

* `Machine.Evaluates`: two machines that evaluate expressions alike.
* `agree_cells`, `agree_cellNumber`, `agree_readCell`: tensors.  Literals are filled, and what
  indices come to is the number of a cell in a tensor that was held.
* `agree_arguments`, `agree_callBy`: calls.
* `agree_evalBy`: the rule.
-/

namespace SpanScript

open Run Accord

namespace Machine

/-! ## Machines -/

/-- A machine, and one beside it that evaluates expressions alike, with their places moved
by `f`. -/
structure Evaluates (S : Evaluation) (f : Location → Location) (m m' : Machine) : Prop where
  levels : Reaches S.Excepted m.levels m'.levels
  eval : ∀ n {s chain e}, S.Sees s chain → S.material.expr e →
    S.Agree s S.Held (m.evalUnder n chain e) (m'.evalUnder n chain (e.relocate f))

variable {S : Evaluation} {f : Location → Location} {m m' : Machine} {s t : Store}
  {chain : Chain} {loc : Location}

theorem Evaluates.under (h : Evaluates S f m m') (n : Nat) :
    Evaluates S f (m.under n) (m'.under n) := ⟨h.levels.sub n, fun _ => h.eval _⟩

theorem Evaluates.readable (h : Evaluates S f m m') :
    Reaches S.Excepted m.readable m'.readable := h.levels.div _

theorem agree_integer (h : S.material.Place loc) {rule : String} (hr : rule ∈ integerRules)
    (v : Value) : S.Agree s Any (integer loc rule v) (integer (S.move loc) rule v) := by
  cases v with
  | int n => exact agree_any n
  | _ => exact S.agree_fail ⟨h, fun x hx => .inr (List.mem_singleton.mp hx ▸ hr), nofun⟩

section

variable (hm : Evaluates S S.move m m') (hc : S.Sees s chain)
include hm hc

theorem agree_test {e : Expr} (he : S.material.expr e) :
    S.Agree s Any (m.test chain e) (m'.test chain (e.relocate S.move)) :=
  (hm.eval 0 hc he).bind fun _ _ _ _ => S.agree_truth hm.readable _

theorem agree_integers (h : S.material.Place loc) {rule : String} (hr : rule ∈ integerRules)
    {es : List Expr} (he : ∀ e ∈ es, S.material.expr e) :
    S.Agree s Any (m.integers chain loc rule es)
      (m'.integers chain (S.move loc) rule (es.map (Expr.relocate S.move))) :=
  agree_mapM fun e hmem => (hm.eval 0 hc (he e hmem)).bind fun _ _ _ _ => agree_integer h hr _

end

/-! ## Tensor literals -/

/-- A shape with a value that is held for each of its cells. -/
def FillsShape (S : Evaluation) (s : Store) (x : List Nat × List Value) : Prop :=
  x.2.length = Tensor.volume x.1 ∧ ∀ v ∈ x.2, S.Held s v

/-- So many items of a literal, all of one shape, with their cells. -/
def FillsRows (S : Evaluation) (n : Nat) (inner : Option (List Nat)) (s : Store)
    (x : List Nat × List Value) : Prop :=
  x.2.length = n * Tensor.volume x.1 ∧ (∀ shape ∈ inner, x.1 = shape) ∧ ∀ v ∈ x.2, S.Held s v

theorem agree_cell (hm : Evaluates S S.move m m') (hc : S.Sees s chain) {e : Expr}
    (he : S.material.expr e) (h : ∀ loc items, e ≠ .tensor loc items) :
    S.Agree s (FillsShape S) (m.cells chain e) (m'.cells chain (e.relocate S.move)) := by
  have h' : ∀ loc items, e.relocate S.move ≠ .tensor loc items := by
    intro loc items
    cases e with
    | tensor loc items => exact absurd rfl (h loc items)
    | _ =>
      rw [Expr.relocate]
      rintro ⟨⟩
  rw [cells_of_ne_tensor m chain h, cells_of_ne_tensor m' chain h']
  refine (hm.eval 0 hc he).bind fun t v _ hv => agree_pure fun u hu => ⟨rfl, fun w hw => ?_⟩
  rw [List.mem_singleton.mp hw]
  exact S.held hv hu

mutual

/-- **A tensor literal has a value for each cell of its shape.** -/
theorem agree_cells {m m' : Machine} (hm : Evaluates S S.move m m') {s : Store}
    (hc : S.Sees s chain) : (e : Expr) → S.material.expr e →
    S.Agree s (FillsShape S) (m.cells chain e) (m'.cells chain (e.relocate S.move))
  | .tensor loc items, he => by
    rw [Expr.relocate, cells, cells, List.isEmpty_map, List.length_map]
    refine agree_ite (fun _ => S.agree_plain (Material.place_of_expr he) rfl) fun _ => ?_
    exact (agree_rows (hm.under _) none hc items fun e h => S.material.expr_part he h).map
      fun t u x _ hx hu => ⟨hx.1, fun v hv => S.held (hx.2.2 v hv) hu⟩
  | .literal _ _, he | .index _ _ _, he | .name _ _, he | .call _ _ _, he =>
    agree_cell hm hc he nofun

theorem agree_rows {m m' : Machine} (hm : Evaluates S S.move m m') (inner : Option (List Nat))
    {s : Store} (hc : S.Sees s chain) : (es : List Expr) → (∀ e ∈ es, S.material.expr e) →
    S.Agree s (FillsRows S es.length inner) (m.rows chain inner es)
      (m'.rows chain inner (es.map (Expr.relocate S.move)))
  | [], _ => by
    rw [List.map_nil, rows, rows]
    refine agree_pure fun _ _ => ⟨(Nat.zero_mul _).symm, fun shape h => ?_, nofun⟩
    rw [Option.mem_def.mp h, Option.getD_some]
  | e :: es, he => by
    have hfirst := he e (List.mem_cons_self ..)
    rw [List.map_cons, rows, rows, Expr.location_relocate]
    refine (agree_cells hm hc e hfirst).bind fun t x ht hx =>
      agree_ite (fun _ => S.agree_plain (Material.place_of_expr hfirst) rfl) fun hshape => ?_
    refine (agree_rows hm _ (S.sees hc ht) es fun e' h => he e' (List.mem_cons_of_mem _ h)).map
      fun u w y hu hy hw => ?_
    have hxy : y.1 = x.1 := hy.2.1 x.1 rfl
    refine ⟨?_, fun shape h => ?_, fun v hv => ?_⟩
    · rw [List.length_append, hx.1, hy.1, hxy, List.length_cons, Nat.succ_mul, Nat.add_comm]
    · rw [Option.mem_def.mp h] at hshape
      have hsx : shape = x.1 := by simpa using hshape
      exact hxy.trans hsx.symm
    · rcases List.mem_append.mp hv with hv | hv
      · exact S.held (hx.2 v hv) (S.trans hu hw)
      · exact S.held (hy.2.2 v hv) hw

end

/-! ## Cells -/

/-- Indices have come to the number of a cell, in a store that was there before. -/
def Located (S : Evaluation) (ref : TensorRef) (s : Store) (n : Nat) : Prop :=
  ∃ u v ns, S.Related u v ∧ S.Held u (.tns ref) ∧ (u.tensor ref).offset ns = .ok n ∧ S.Later u s

theorem Located.later {ref : TensorRef} {n : Nat} (h : Located S ref s n) (hs : S.Later s t) :
    Located S ref t n := by
  obtain ⟨u, v, ns, huv, hu, hn, hlater⟩ := h
  exact ⟨u, v, ns, huv, hu, hn, S.trans hlater hs⟩

/-- The cell is read in the store as it is. -/
theorem agreeAt_readCell {ref : TensorRef} {n : Nat} (hr : S.Related s t)
    (h : Located S ref s n) :
    S.AgreeAt (fun u v => u = s ∧ (s.tensor ref).cells[n]? = some v) (readCell ref n)
      (readCell ref n) s t := by
  obtain ⟨u, v, ns, huv, hu, hn, hlater⟩ := h
  unfold AgreeAt readCell
  rw [run_get, run_get, S.tensor hr]
  cases hcell : (s.tensor ref).cells[n]? with
  | some w => exact .answer (S.refl s) hr ⟨rfl, rfl⟩
  | none => exact .halt (S.refl s) hr (S.missing huv hu hn hlater hr hcell)

theorem agree_readCell {ref : TensorRef} {n : Nat} (h : Located S ref s n) :
    S.Agree s S.Held (readCell ref n) (readCell ref n) := fun _ _ hs hr =>
  (agreeAt_readCell hr (h.later hs)).imp (S.refl _) fun _ _ _ hv =>
    hv.1 ▸ S.cell hr (Array.mem_of_getElem? hv.2)

section

variable (hm : Evaluates S S.move m m') (hc : S.Sees s chain) (h : S.material.Place loc)
include hm hc h

/-- **Indices come to the number of a cell**, or to a fault. -/
theorem agree_cellNumber {rule : String} (hr : rule ∈ integerRules) {ref : TensorRef}
    (href : S.Held s (.tns ref)) {es : List Expr} (he : ∀ e ∈ es, S.material.expr e) :
    S.Agree s (Located S ref) (m.cellNumber chain loc rule ref es)
      (m'.cellNumber chain (S.move loc) rule ref (es.map (Expr.relocate S.move))) := by
  refine (agree_integers (hm.under _) hc h hr he).bind fun t ns ht _ => ?_
  refine agree_read fun u u' hu hr => ?_
  rw [S.tensor hr]
  cases ho : (u.tensor ref).offset ns with
  | error p => exact S.agree_plain h rfl
  | ok n => exact agree_pure fun w hw => ⟨u, u', ns, hr, S.held href (S.trans ht hu), ho, hw⟩

theorem agree_readIndex {e : Expr} (he : S.material.expr e) :
    S.Agree s S.Held (m.readIndex chain loc e)
      (m'.readIndex chain (S.move loc) (e.relocate S.move)) := by
  obtain ⟨hbase, hindices⟩ := Material.expr_indexChain he
  unfold readIndex
  rw [Expr.indexChain_relocate]
  refine (hm.eval 0 hc hbase).bind fun t v ht hv => ?_
  cases v with
  | tns ref =>
    exact (agree_cellNumber hm (S.sees hc ht) h (by decide) hv hindices).bind fun _ _ _ hn =>
      agree_readCell hn
  | _ => exact S.agree_plain h rfl

/-! ## Calls -/

omit hm hc h in
/-- Arguments whose values are held. -/
def Given (S : Evaluation) (s : Store) (given : Arguments) : Prop :=
  (∀ v ∈ given.positional, S.Held s v) ∧ ∀ b ∈ given.named, S.Held s b.2 ∧ S.material.Name b.1

omit hm hc h in
theorem given_nil : Given S s ⟨[], []⟩ := ⟨fun _ h => (nomatch h), fun _ h => (nomatch h)⟩

omit hm hc h in
theorem Given.later {given : Arguments} (h : Given S s given) (hs : S.Later s t) :
    Given S t given :=
  ⟨fun v hv => S.held (h.1 v hv) hs, fun b hb => ⟨S.held (h.2 b hb).1 hs, (h.2 b hb).2⟩⟩

theorem agree_arguments {args : List Argument} (ha : ∀ a ∈ args, S.material.expr a.value)
    (hk : ∀ a ∈ args, ∀ x, a.name? = some x → S.material.Name x) : ∀ {given : Arguments},
      Given S s given → S.Agree s (Given S) (m.arguments chain loc args given)
        (m'.arguments chain (S.move loc) (args.map (Argument.relocate S.move)) given) := by
  induction args generalizing s with
  | nil => exact fun hg => agree_pure fun _ ht => hg.later ht
  | cons a args ih =>
    intro given hg
    have hrest {t : Store} (ht : S.Later s t) {given : Arguments} (hg : Given S t given) :=
      ih (S.sees hc ht) (fun b hb => ha b (List.mem_cons_of_mem _ hb))
        (fun b hb => hk b (List.mem_cons_of_mem _ hb)) hg
    have hvalue : S.material.expr a.value := ha a (List.mem_cons_self ..)
    rw [List.map_cons]
    cases a with
    | positional e =>
      rw [Argument.relocate]
      refine (hm.eval 0 hc hvalue).bind fun t v ht hv => hrest ht ⟨fun w hw => ?_, (hg.later ht).2⟩
      rcases List.mem_append.mp hw with hw | hw
      · exact (hg.later ht).1 w hw
      · exact List.mem_singleton.mp hw ▸ hv
    | keyword x e =>
      have hx : S.material.Name x := hk _ (List.mem_cons_self ..) x rfl
      rw [Argument.relocate]
      refine (hm.eval 0 hc hvalue).bind fun t v ht hv =>
        agree_ite (fun _ => S.agree_telling h hx rfl) fun _ => hrest ht ⟨(hg.later ht).1, ?_⟩
      intro b hb
      rcases List.mem_append.mp hb with hb | hb
      · exact (hg.later ht).2 b hb
      · exact List.mem_singleton.mp hb ▸ ⟨hv, hx⟩

end

/-- Two ways of calling functions of the program that go alike, wherever such a function is
called. -/
def Dispatches (S : Evaluation)
    (defined defined' : Location → String → Function → Arguments → Run Value) : Prop :=
  ∀ ⦃s t loc name args F given⦄, S.Related s t → S.material.expr (.call loc name args) →
    s.function? name = some F → Given S s given →
    S.AgreeAt S.Held (defined loc name F given) (defined' (S.move loc) name (S.carry F) given) s t

section

variable (hm : Evaluates S S.move m m') (hc : S.Sees s chain)
  {defined defined' : Location → String → Function → Arguments → Run Value}
  (hd : Dispatches S defined defined')
include hm hc hd

theorem agree_callBy {name : String} {args : List Argument}
    (he : S.material.expr (.call loc name args)) :
    S.Agree s S.Held (m.callBy defined chain loc name args)
      (m'.callBy defined' chain (S.move loc) name (args.map (Argument.relocate S.move))) := by
  have h : S.material.Place loc := Material.place_of_expr he
  have hname : S.material.Name name := Material.name_of_expr he (List.mem_cons_self ..)
  have hvalue : ∀ a ∈ args, S.material.expr a.value := fun a ha =>
    S.material.expr_part he (List.mem_map_of_mem ha)
  have hkeyword : ∀ a ∈ args, ∀ x, a.name? = some x → S.material.Name x := fun a ha x hx =>
    Material.name_of_expr he (List.mem_cons_of_mem _ (List.mem_filterMap.mpr ⟨a, ha, hx⟩))
  have hallowed {op : Builtin} (hop : Builtin.ofName? name = some op) : S.Allows op := by
    have hn : op.name = name := by simpa using List.find?_some hop
    exact S.allowed (hn ▸ he)
  unfold callBy
  cases hop : (Builtin.ofName? name).filter Builtin.takesName with
  | some op =>
    obtain ⟨hfound, htakes⟩ := Option.filter_eq_some_iff.mp hop
    have hany : (args.map (Argument.relocate S.move)).any (·.name?.isSome)
        = args.any (·.name?.isSome) := by
      simp only [List.any_map, Function.comp_def, Argument.name?_relocate]
    have hvalues : (args.map (Argument.relocate S.move)).map Argument.value
        = (args.map Argument.value).map (Expr.relocate S.move) := by
      simp only [List.map_map, Function.comp_def, Argument.value_relocate]
    simp only [hany, hvalues]
    refine agree_ite (fun _ => S.agree_telling h hname rfl) fun _ =>
      Builtin.agree_applyToName S h (hallowed hfound) htakes hc fun e hmem => ?_
    obtain ⟨a, ha, rfl⟩ := List.mem_map.mp hmem
    exact hvalue a ha
  | none =>
    refine (agree_arguments (hm.under _) hc h hvalue hkeyword given_nil).bind
      fun t given ht hg => agree_get fun u u' hu hr => ?_
    simp only [S.functions hr]
    cases hf : u.function? name with
    | some F => exact hd hr he hf (hg.later hu)
    | none =>
      cases hb : Builtin.ofName? name with
      | none => exact S.agree_telling (Q := S.Held) h hname rfl (S.refl u) hr
      | some op =>
        have htakes : op.takesName = false := by simpa [hb] using hop
        refine agree_ite (fun _ => ?_) (fun _ => ?_) (S.refl u) hr
        · exact Builtin.agree_apply S h (hm.under _).readable (hallowed hb) htakes (hg.later hu).1
        · exact S.agree_telling h hname rfl

/-! ## Expressions -/

/-- **The rule of expressions goes alike on both sides.** -/
theorem agree_evalBy {e : Expr} (he : S.material.expr e) :
    S.Agree s S.Held (m.evalBy defined chain e)
      (m'.evalBy defined' chain (e.relocate S.move)) := by
  cases e with
  | literal loc v =>
    rw [Expr.relocate]
    refine S.agree_value ?_
    cases v <;> nofun
  | name loc x =>
    rw [Expr.relocate]
    refine agree_read fun t t' _ hr => ?_
    rw [Store.get?_congr (S.scopes hr)]
    cases hx : t.get? chain x with
    | some v => exact agree_pure fun u hu => S.held (S.bound hr hx) hu
    | none =>
      exact S.agree_telling (Material.place_of_expr he)
        (Material.name_of_expr he (List.mem_cons_self ..)) rfl
  | tensor loc items =>
    have hcells := agree_cells hm hc _ he
    rw [Expr.relocate] at hcells ⊢
    refine hcells.bind fun t x _ hx => S.agree_newTensor ?_ fun v hv => ?_
    · exact Tensor.filled_ofCells (List.size_toArray.trans hx.1)
    · exact hx.2 v (List.mem_toArray.mp hv)
  | index loc base indices =>
    have hread := agree_readIndex hm hc (Material.place_of_expr he) he
    rw [Expr.relocate] at hread ⊢
    exact hread
  | call loc callee args =>
    rw [Expr.relocate]
    exact agree_callBy hm hc hd he

theorem agree_evalBy_id (hmove : S.move = id) {e : Expr} (he : S.material.expr e) :
    S.Agree s S.Held (m.evalBy defined chain e) (m'.evalBy defined' chain e) := by
  have h := agree_evalBy hm hc hd he
  rwa [hmove, e.relocate_id] at h

end

end Machine

end SpanScript
