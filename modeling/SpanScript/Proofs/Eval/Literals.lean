import SpanScript.Proofs.Eval.Tracking
import SpanScript.Proofs.Value.Addressing

/-!
# What tensor literals hold

A tensor literal nests literals down to its items, the expressions that are none.  If all of
them lie equally deep, and the literals of one level have as many parts, the nesting has a
shape.  An index leads from a literal to one of its parts, counted from its first one or from
its last one back, and a list of indices leads down to an item.

A literal that has a shape is evaluated by evaluating its items one after another, and the
item that indices lead to has the number of the cell that they address.  A literal that has
none gives no value.

* `Expr.Nests`, `Expr.Uneven`: the shape of a nesting, and the nestings that have none.
* `Expr.follow`, `Expr.items`: the way to an item, and all items in order.
* `Expr.Nests.follow_eq`: the item that indices lead to.
* `cells_of_nests`, `nests_of_cells`: how the cells of a literal come about.
* `eval_tensor_eq_ok_iff`: evaluating a literal.
-/

namespace SpanScript

open Run Machine

/-! ## Nestings -/

namespace Expr

/-- An expression is no tensor literal. -/
def IsItem (e : Expr) : Prop := ∀ loc items, e ≠ .tensor loc items

/-- The shape of an expression as a nesting of literals: none if it is an item, and otherwise the
number of its parts before their common shape. -/
inductive Nests : List Nat → Expr → Prop
  | item {e : Expr} : e.IsItem → Nests [] e
  | rows {loc : Location} {parts : List Expr} {shape : List Nat} : parts ≠ [] →
    (∀ e ∈ parts, Nests shape e) → Nests (parts.length :: shape) (.tensor loc parts)

/-- Somewhere in a nesting a literal has no parts, or has parts of different shapes. -/
inductive Uneven : Expr → Prop
  | empty {loc : Location} : Uneven (.tensor loc [])
  | ragged {loc : Location} {parts : List Expr} {e e' : Expr} {shape shape' : List Nat} :
    e ∈ parts → e' ∈ parts → Nests shape e → Nests shape' e' → shape ≠ shape' →
      Uneven (.tensor loc parts)
  | part {loc : Location} {parts : List Expr} {e : Expr} : e ∈ parts → Uneven e →
    Uneven (.tensor loc parts)

/-- The part that an index leads to: counted from one, or from the end back if negative. -/
def part? (i : Int) (parts : List Expr) : Option Expr :=
  if 0 < i then parts[(i - 1).toNat]?
  else if i < 0 then parts.reverse[(-i - 1).toNat]?
  else none

/-- The expression that indices lead to, one level of the nesting for each. -/
def follow : List Int → Expr → Option Expr
  | [], e => some e
  | i :: indices, .tensor _ parts => (part? i parts).bind (follow indices)
  | _ :: _, _ => none

/-- The items of a nesting with a number of levels, in the order they are written in. -/
def items : Nat → Expr → List Expr
  | 0, e => [e]
  | depth + 1, .tensor _ parts => parts.flatMap (items depth)
  | _ + 1, _ => []

theorem Nests.unique {shape : List Nat} {e : Expr} (h : e.Nests shape) :
    ∀ {shape' : List Nat}, e.Nests shape' → shape' = shape := by
  induction h with
  | item hitem =>
    intro shape' h'
    cases h' with
    | item _ => rfl
    | rows _ _ => exact absurd rfl (hitem _ _)
  | @rows loc parts shape hne hparts ih =>
    intro shape' h'
    cases h' with
    | item hitem => exact absurd rfl (hitem _ _)
    | @rows _ _ shape' _ hparts' =>
      obtain ⟨e, he⟩ := List.exists_mem_of_ne_nil parts hne
      rw [ih e he (hparts' e he)]

theorem Uneven.not_nests {e : Expr} (h : e.Uneven) : ∀ shape : List Nat, ¬ e.Nests shape := by
  induction h with
  | empty =>
    intro shape h
    cases h with
    | item hitem => exact hitem _ _ rfl
    | rows hne _ => exact hne rfl
  | ragged he he' hshape hshape' hne =>
    intro shape h
    cases h with
    | item hitem => exact hitem _ _ rfl
    | rows _ hparts =>
      exact hne ((hparts _ he).unique hshape |>.trans ((hparts _ he').unique hshape').symm)
  | part he _ ih =>
    intro shape h
    cases h with
    | item hitem => exact hitem _ _ rfl
    | rows _ hparts => exact ih _ (hparts _ he)

/-- **A nesting that has no shape is uneven.** -/
theorem nests_or_uneven (e : Expr) : (∃ shape, e.Nests shape) ∨ e.Uneven := by
  cases e with
  | tensor loc parts =>
    have hparts : ∀ e ∈ parts, (∃ shape, e.Nests shape) ∨ e.Uneven := fun e _ => nests_or_uneven e
    cases parts with
    | nil => exact .inr .empty
    | cons first rest =>
      by_cases hbad : ∃ e ∈ first :: rest, e.Uneven
      · obtain ⟨e, he, hu⟩ := hbad
        exact .inr (.part he hu)
      · have hall : ∀ e ∈ first :: rest, ∃ shape, e.Nests shape := fun e he =>
          (hparts e he).resolve_right fun hu => hbad ⟨e, he, hu⟩
        have hmem : first ∈ first :: rest := List.mem_cons_self ..
        obtain ⟨shape, hfirst⟩ := hall first hmem
        by_cases hsame : ∀ e ∈ first :: rest, e.Nests shape
        · exact .inl ⟨_, .rows (List.cons_ne_nil _ _) hsame⟩
        · -- a part has another shape than the first one
          obtain ⟨e, hother⟩ := Classical.not_forall.mp hsame
          obtain ⟨he, hother⟩ := Classical.not_imp.mp hother
          obtain ⟨shape', hshape'⟩ := hall e he
          exact .inr (.ragged hmem he hfirst hshape' fun heq => hother (heq ▸ hshape'))
  | _ => exact .inl ⟨[], .item fun _ _ h => by cases h⟩

theorem uneven_iff (e : Expr) : e.Uneven ↔ ∀ shape, ¬ e.Nests shape :=
  ⟨Uneven.not_nests, fun h => (nests_or_uneven e).resolve_left fun ⟨shape, hs⟩ => h shape hs⟩

theorem part?_of_valid {index : Int} {parts : List Expr} (h : Tensor.Valid index parts.length) :
    part? index parts = parts[Tensor.placeOf index parts.length]? := by
  have hlt := h.placeOf_lt
  unfold Tensor.Valid at h
  unfold part? Tensor.placeOf
  by_cases hneg : index < 0
  · rw [if_neg (by omega), if_pos hneg, if_pos hneg, List.getElem?_reverse (by omega)]
    congr 1
    omega
  · rw [if_pos (by omega), if_neg hneg]

/-- Where all rows are equally long, the rows laid end to end are found by row and column. -/
theorem getElem?_flatMap {f : Expr → List Expr} {k : Nat} : ∀ {parts : List Expr} {p r : Nat},
    (∀ e ∈ parts, (f e).length = k) → r < k →
      (parts.flatMap f)[p * k + r]? = parts[p]?.bind fun e => (f e)[r]? := by
  intro parts
  induction parts with
  | nil => exact fun _ _ => rfl
  | cons e parts ih =>
    intro p r hk hr
    have he : (f e).length = k := hk e (List.mem_cons_self ..)
    rw [List.flatMap_cons]
    cases p with
    | zero =>
      rw [Nat.zero_mul, Nat.zero_add, List.getElem?_append_left (he ▸ hr)]
      rfl
    | succ p =>
      have hle : (f e).length ≤ (p + 1) * k + r := by
        rw [he, Nat.succ_mul]
        omega
      have hindex : (p + 1) * k + r - (f e).length = p * k + r := by
        rw [he, Nat.succ_mul]
        omega
      rw [List.getElem?_append_right hle, hindex,
        ih (fun e' h => hk e' (List.mem_cons_of_mem _ h)) hr]
      rfl

theorem length_flatMap {f : Expr → List Expr} {k : Nat} : ∀ {parts : List Expr},
    (∀ e ∈ parts, (f e).length = k) → (parts.flatMap f).length = parts.length * k := by
  intro parts
  induction parts with
  | nil => exact fun _ => (Nat.zero_mul k).symm
  | cons e parts ih =>
    intro hk
    rw [List.flatMap_cons, List.length_append, hk e (List.mem_cons_self ..),
      ih fun e' h => hk e' (List.mem_cons_of_mem _ h), List.length_cons, Nat.succ_mul, Nat.add_comm]

theorem Nests.length_items {shape : List Nat} {e : Expr} (h : e.Nests shape) :
    (e.items shape.length).length = Tensor.volume shape := by
  induction h with
  | item => rfl
  | rows _ _ ih => exact length_flatMap ih

/-- **Indices lead to the item that has the number of their cell.** -/
theorem Nests.follow_eq {shape : List Nat} {e : Expr} (h : e.Nests shape) :
    ∀ {indices : List Int}, List.Forall₂ Tensor.Valid indices shape → ∃ item,
      e.follow indices = some item ∧
        (e.items shape.length)[Tensor.number indices shape]? = some item := by
  induction h with
  | @item e _ =>
    rintro _ ⟨⟩
    exact ⟨e, rfl, rfl⟩
  | @rows loc parts shape _ hparts ih =>
    intro indices hindices
    obtain ⟨index, indices, hindex, hrest, rfl⟩ := List.forall₂_cons_right_iff.mp hindices
    have hplace := hindex.placeOf_lt
    have hmem : parts[Tensor.placeOf index parts.length] ∈ parts := List.getElem_mem hplace
    have hpart : parts[Tensor.placeOf index parts.length]?
        = some parts[Tensor.placeOf index parts.length] := List.getElem?_eq_getElem hplace
    obtain ⟨item, hfollow, hitem⟩ := ih _ hmem hrest
    refine ⟨item, ?_, ?_⟩
    · rw [follow, part?_of_valid hindex, hpart]
      exact hfollow
    · rw [List.length_cons, items, Tensor.number,
        getElem?_flatMap (fun e he => (hparts e he).length_items) (Tensor.number_lt hrest), hpart]
      exact hitem

end Expr

/-! ## Cells -/

section

variable {turns : Nat} {chain : Chain}

/-- The values of items, evaluated one after another by the machine that is so many literals
deep. -/
def Machine.itemValues (m : Machine) (depth : Nat) (chain : Chain) (items : List Expr) :
    Run (List Value) :=
  items.mapM ((m.under (depth * Weight.item)).eval chain)

theorem itemValues_machine (turns levels depth : Nat) (chain : Chain) (items : List Expr) :
    (machine turns levels).itemValues depth chain items
      = items.mapM ((machine turns (levels - depth * Weight.item)).eval chain) := by
  rw [itemValues, under_machine]

/-- Items one literal deeper are evaluated by the machine below. -/
theorem itemValues_under (turns levels depth : Nat) (chain : Chain) (items : List Expr) :
    ((machine turns levels).under Weight.item).itemValues depth chain items
      = (machine turns levels).itemValues (depth + 1) chain items := by
  rw [under_machine, itemValues_machine, itemValues_machine, Nat.sub_sub, Nat.succ_mul,
    Nat.add_comm]

theorem Machine.itemValues_append (m : Machine) (depth : Nat) (items others : List Expr) :
    m.itemValues depth chain (items ++ others) = (do
      let vs ← m.itemValues depth chain items
      let ws ← m.itemValues depth chain others
      pure (vs ++ ws)) := List.mapM_append

/-- Parts that have a common shape and the values of their items for cells make rows of that shape,
whatever stands before them has the shape too. -/
theorem rows_of_cells {m : Machine} {shape : List Nat} :
    ∀ {parts : List Expr} {inner : Option (List Nat)},
      (∀ e ∈ parts, m.cells chain e = (do
        let vs ← m.itemValues shape.length chain (e.items shape.length)
        pure (shape, vs))) →
      (∀ before ∈ inner, before = shape) → (inner = none → parts ≠ []) →
      m.rows chain inner parts = (do
        let vs ← m.itemValues shape.length chain (parts.flatMap (Expr.items shape.length))
        pure (shape, vs)) := by
  intro parts
  induction parts with
  | nil =>
    intro inner _ hinner hne
    cases inner with
    | none => exact absurd rfl (hne rfl)
    | some before =>
      obtain rfl := hinner before rfl
      rfl
  | cons e parts ih =>
    intro inner hparts hinner _
    have hany : ¬ inner.any (· != shape) = true := by
      cases inner with
      | none => exact Bool.false_ne_true
      | some before => simp [hinner before rfl]
    have hrest := @ih (some shape) (fun e' h => hparts e' (List.mem_cons_of_mem _ h))
      (fun _ h => (Option.mem_some.mp h).symm) nofun
    rw [rows, hparts e (List.mem_cons_self ..), List.flatMap_cons, itemValues_append]
    simp only [bind_assoc, pure_bind, if_neg hany, hrest]

/-- **The cells of a literal that has a shape** are the values of its items, which are evaluated
one after another. -/
theorem cells_of_nests {shape : List Nat} {e : Expr} (h : e.Nests shape) : ∀ levels : Nat,
    (machine turns levels).cells chain e = (do
      let vs ← (machine turns levels).itemValues shape.length chain (e.items shape.length)
      pure (shape, vs)) := by
  induction h with
  | @item e hitem =>
    intro levels
    rw [cells_of_ne_tensor _ chain hitem, itemValues_machine, List.length_nil, Nat.zero_mul,
      Nat.sub_zero, Expr.items, List.mapM_cons, List.mapM_nil]
    simp only [bind_assoc, pure_bind]
  | @rows loc parts shape hne hparts ih =>
    intro levels
    have hempty : ¬ parts.isEmpty = true := fun h => hne (List.isEmpty_iff.mp h)
    have hrows := @rows_of_cells chain (machine turns (levels - Weight.item)) shape parts none
      (fun e he => ih e he _) nofun fun _ => hne
    rw [cells, if_neg hempty, under_machine, hrows, ← under_machine, itemValues_under,
      List.length_cons, Expr.items]
    simp only [bind_assoc, pure_bind]

theorem nests_of_cell {m : Machine} {e : Expr} {s t : Store} {shape : List Nat} {vs : List Value}
    (hitem : e.IsItem) (h : (m.cells chain e).run.run s = (.ok (shape, vs), t)) :
    e.Nests shape := by
  rw [cells_of_ne_tensor m chain hitem] at h
  obtain ⟨v, u, -, hpure⟩ := run_bind_eq_ok h
  cases hpure
  exact .item hitem

mutual

/-- **A literal whose cells have come about has a shape.** -/
theorem nests_of_cells {m : Machine} {s t : Store} {shape : List Nat} {vs : List Value} :
    (e : Expr) → (m.cells chain e).run.run s = (.ok (shape, vs), t) → e.Nests shape
  | .tensor loc parts, h => by
    rw [cells] at h
    by_cases hempty : parts.isEmpty = true
    · rw [if_pos hempty] at h
      cases h
    · rw [if_neg hempty] at h
      obtain ⟨⟨inner, values⟩, u, hrows, hpure⟩ := run_bind_eq_ok h
      cases hpure
      exact .rows (fun hnil => hempty (List.isEmpty_iff.mpr hnil)) (nests_of_rows parts hrows).1
  | .literal _ _, h | .index _ _ _, h | .name _ _, h | .call _ _ _, h => nests_of_cell nofun h

theorem nests_of_rows {m : Machine} {inner : Option (List Nat)} {s t : Store} {shape : List Nat}
    {vs : List Value} : (parts : List Expr) →
    (m.rows chain inner parts).run.run s = (.ok (shape, vs), t) →
      (∀ e ∈ parts, e.Nests shape) ∧ ∀ before ∈ inner, before = shape
  | [], h => by
    rw [rows] at h
    cases h
    refine ⟨nofun, fun before hbefore => ?_⟩
    cases hbefore
    rfl
  | e :: parts, h => by
    rw [rows] at h
    obtain ⟨⟨first, values⟩, u, hfirst, hrest⟩ := run_bind_eq_ok h
    dsimp only at hrest
    by_cases hany : inner.any (· != first) = true
    · rw [if_pos hany] at hrest
      cases hrest
    · rw [if_neg hany] at hrest
      obtain ⟨⟨shape', others⟩, w, hothers, hpure⟩ := run_bind_eq_ok hrest
      cases hpure
      obtain ⟨hparts, hsame⟩ := nests_of_rows parts hothers
      obtain rfl := hsame first rfl
      refine ⟨List.forall_mem_cons.mpr ⟨nests_of_cells e hfirst, hparts⟩, fun before hbefore => ?_⟩
      cases hbefore
      simpa using hany

end

/-! ## Evaluating a literal -/

/-- Each of a list of runs that all give an answer does so in the store that the ones before it
leave. -/
theorem exists_of_mapM {α β : Type} {k : α → Run β} : ∀ {xs : List α} {s t : Store} {bs : List β},
    (xs.mapM k).run.run s = (.ok bs, t) → ∀ {n : Nat} {x : α}, xs[n]? = some x →
      ∃ before u b w, ((xs.take n).mapM k).run.run s = (.ok before, u) ∧
        (k x).run.run u = (.ok b, w) ∧ bs[n]? = some b := by
  intro xs
  induction xs with
  | nil => exact fun _ _ _ hx => nomatch hx
  | cons y ys ih =>
    intro s t bs h n x hx
    rw [List.mapM_cons] at h
    obtain ⟨b, u, hb, hrest⟩ := run_bind_eq_ok h
    obtain ⟨bs', w, hbs, hpure⟩ := run_bind_eq_ok hrest
    cases hpure
    cases n with
    | zero =>
      cases hx
      exact ⟨[], s, b, u, rfl, hb, rfl⟩
    | succ n =>
      obtain ⟨before, u', b', w', hbefore, hb', hn⟩ := ih hbs hx
      refine ⟨b :: before, u', b', w', ?_, hb', hn⟩
      rw [List.take_succ_cons, List.mapM_cons, run_bind, hb]
      dsimp only
      rw [run_bind, hbefore]
      rfl

theorem length_of_mapM {α β : Type} {k : α → Run β} : ∀ {xs : List α} {s t : Store} {bs : List β},
    (xs.mapM k).run.run s = (.ok bs, t) → bs.length = xs.length := by
  intro xs
  induction xs with
  | nil =>
    rintro s t bs ⟨⟩
    rfl
  | cons y ys ih =>
    intro s t bs h
    rw [List.mapM_cons] at h
    obtain ⟨b, u, -, hrest⟩ := run_bind_eq_ok h
    obtain ⟨bs', w, hbs, hpure⟩ := run_bind_eq_ok hrest
    cases hpure
    rw [List.length_cons, List.length_cons, ih hbs]

/-- **A literal gives a value** exactly if it has a shape and its items all have values, and it is
a new tensor of that shape that holds these. -/
theorem eval_tensor_eq_ok_iff {levels : Nat} {loc : Location} {parts : List Expr} {s t : Store}
    {v : Value} :
    ((machine turns (levels + 1)).eval chain (.tensor loc parts)).run.run s = (.ok v, t) ↔
      ∃ shape vs u, (Expr.tensor loc parts).Nests shape ∧
        ((machine turns levels).itemValues shape.length chain
          ((Expr.tensor loc parts).items shape.length)).run.run s = (.ok vs, u) ∧
        v = .tns u.tensors.size ∧ t = u.addTensor (.ofCells shape vs.toArray) := by
  rw [eval_machine, evalRule]
  constructor
  · intro h
    obtain ⟨⟨shape, vs⟩, u, hcells, hnew⟩ := run_bind_eq_ok h
    have hnests := nests_of_cells _ hcells
    rw [cells_of_nests hnests] at hcells
    obtain ⟨vs', u', hvalues, hpure⟩ := run_bind_eq_ok hcells
    cases hpure
    cases hnew
    exact ⟨shape, vs, u, hnests, hvalues, rfl, rfl⟩
  · rintro ⟨shape, vs, u, hnests, hvalues, rfl, rfl⟩
    rw [run_bind, cells_of_nests hnests, run_bind, hvalues]
    rfl

end

end SpanScript
