import SpanScript.Proofs.Eval.Cells
import SpanScript.Proofs.Eval.Literals
import SpanScript.Proofs.Eval.Placeless
import SpanScript.Proofs.Store.Extension

/-!
# Tensor addressing

A tensor literal that gives a value has a shape, and the tensor that it gives has the same.
Indices that are valid in the shape lead to an item of the literal, and reading the tensor with
them gives the value that the item had; any others are a fault, be it to read or to assign.

How indices are divided among brackets does not matter: of a chain of index expressions only
what is before the brackets and the indices in their order are seen.

* `Expr.Points`: a name with integers in brackets.
* `Machine.Indexes`: what an index expression stands for, and its uses by what the tensor says of
  the indices.
* `Machine.HasItem`, `exists_hasItem`: the item that indices lead to.
* `Expr.grouped`, `matches_grouped`, `matches_assign_grouped`: brackets.
* `tensor_addressing`: all of it.
-/

namespace SpanScript

open Run

/-! ## Using indices -/

def Expr.IsInteger (e : Expr) (n : Int) : Prop := ∃ place, e = .literal place (.int n)

/-- An index expression with a name before its brackets and integers, written out, in them. -/
structure Expr.Points (e : Expr) (x : String) (ns : List Int) : Prop where
  index : ∃ loc base es, e = .index loc base es
  name : ∃ place, e.indexChain.1 = .name place x
  integers : List.Forall₂ IsInteger e.indexChain.2 ns

namespace Machine

variable {m : Machine} {chain : Chain} {loc : Location} {rule : String} {e : Expr} {s u : Store}
  {ref : TensorRef} {indices : List Int}

/-- An index expression stands for a tensor and integers: what is before the brackets is evaluated
to the tensor, and the indices to the integers. -/
def Indexes (m : Machine) (chain : Chain) (loc : Location) (rule : String) (e : Expr) (s : Store)
    (ref : TensorRef) (indices : List Int) (u : Store) : Prop :=
  ∃ t, (m.eval chain e.indexChain.1).run.run s = (.ok (.tns ref), t) ∧
    ((m.under Weight.index).integers chain loc rule e.indexChain.2).run.run t = (.ok indices, u)

/-- The tensor is asked for the number of the cell at the integers. -/
theorem Indexes.number (h : m.Indexes chain loc rule e s ref indices u) :
    ∃ t, (m.eval chain e.indexChain.1).run.run s = (.ok (.tns ref), t) ∧
      (m.cellNumber chain loc rule ref e.indexChain.2).run.run t
        = match (u.tensor ref).offset indices with
          | .ok n => (.ok n, u)
          | .error p => (.error (.fault (.index p) loc), u) := by
  obtain ⟨t, hbase, hindices⟩ := h
  exact ⟨t, hbase, run_cellNumber hindices⟩

theorem Indexes.read {n : Nat} {v : Value} (h : m.Indexes chain loc "INDEX" e s ref indices u)
    (ho : (u.tensor ref).offset indices = .ok n) (hv : (u.tensor ref).cells[n]? = some v) :
    (m.readIndex chain loc e).run.run s = (.ok v, u) := by
  obtain ⟨t, hbase, hnumber⟩ := h.number
  rw [ho] at hnumber
  exact run_readIndex hbase hnumber hv

theorem Indexes.read_error {p : IndexProblem}
    (h : m.Indexes chain loc "INDEX" e s ref indices u)
    (ho : (u.tensor ref).offset indices = .error p) :
    (m.readIndex chain loc e).run.run s = (.error (.fault (.index p) loc), u) := by
  obtain ⟨t, hbase, hnumber⟩ := h.number
  rw [ho] at hnumber
  rw [readIndex, run_bind, hbase]
  dsimp only
  rw [run_bind, hnumber]

theorem Indexes.write_error {p : IndexProblem} {place : Location} {x : String}
    (h : m.Indexes chain loc "ASSIGN" e s ref indices u) (hname : e.indexChain.1 = .name place x)
    (ho : (u.tensor ref).offset indices = .error p) (value : Expr) :
    (m.writeIndex chain loc e value).run.run s = (.error (.fault (.index p) loc), u) := by
  obtain ⟨t, hbase, hnumber⟩ := h.number
  rw [hname] at hbase
  rw [ho] at hnumber
  rw [writeIndex_of_name hname, run_bind, hbase]
  dsimp only
  rw [run_bind, hnumber]

/-! ## Names with integers in brackets -/

section

variable {turns levels : Nat} {t : Store} {es : List Expr} {ns ns' : List Int} {x : String}

theorem run_integers (h : List.Forall₂ Expr.IsInteger es ns) :
    ((machine turns (levels + 1)).integers chain loc rule es).run.run s = (.ok ns, s) := by
  induction h with
  | nil => rfl
  | cons he _ ih =>
    obtain ⟨place, rfl⟩ := he
    rw [Machine.integers, List.mapM_cons]
    show (Machine.integers _ chain loc rule _ >>= _ : Run _).run.run s = _
    rw [run_bind, ih]
    rfl

theorem run_integers_of_ok (h : List.Forall₂ Expr.IsInteger es ns)
    (hr : ((machine turns levels).integers chain loc rule es).run.run s = (.ok ns', t)) :
    ns' = ns ∧ t = s := by
  cases levels with
  | zero =>
    cases h with
    | nil =>
      cases hr
      exact ⟨rfl, rfl⟩
    | cons _ _ => cases hr
  | succ levels =>
    rw [run_integers h] at hr
    cases hr
    exact ⟨rfl, rfl⟩

/-- Where a name stands for a tensor it does so before brackets with integers. -/
theorem indexes_of_points (h : e.Points x ns) (hx : s.get? chain x = some (.tns ref))
    (hl : Weight.index < levels) (loc : Location) (rule : String) :
    (machine turns levels).Indexes chain loc rule e s ref ns s := by
  obtain ⟨place, hname⟩ := h.name
  obtain ⟨k, rfl⟩ : ∃ k, levels = Weight.index + (k + 1) := ⟨levels - Weight.index - 1, by omega⟩
  refine ⟨s, ?_, ?_⟩
  · rw [hname]
    exact eval_name hx
  · rw [under_machine, Nat.add_sub_cancel_left]
    exact run_integers h.integers

end

/-! ## Items -/

/-- In the evaluation of a literal of a shape, indices lead to an item with a value: the item is
evaluated to it in the store that the items before it leave. -/
def HasItem (m : Machine) (chain : Chain) (literal : Expr) (shape : List Nat) (s : Store)
    (indices : List Int) (v : Value) : Prop :=
  ∃ item before u w, literal.follow indices = some item ∧
    (literal.items shape.length)[Tensor.number indices shape]? = some item ∧
    (m.itemValues shape.length chain
      ((literal.items shape.length).take (Tensor.number indices shape))).run.run s
        = (.ok before, u) ∧
    ((m.under (shape.length * Weight.item)).eval chain item).run.run u = (.ok v, w)

theorem exists_hasItem {literal : Expr} {shape : List Nat} {vs : List Value}
    (h : literal.Nests shape)
    (hvs : (m.itemValues shape.length chain (literal.items shape.length)).run.run s = (.ok vs, u))
    (hindices : List.Forall₂ Tensor.Valid indices shape) :
    ∃ v, m.HasItem chain literal shape s indices v ∧
      vs[Tensor.number indices shape]? = some v := by
  obtain ⟨item, hfollow, hitem⟩ := h.follow_eq hindices
  obtain ⟨before, u', v, w, hbefore, hv, hn⟩ := exists_of_mapM hvs hitem
  exact ⟨v, ⟨item, before, u', w, hfollow, hitem, hbefore, hv⟩, hn⟩

end Machine

/-! ## Brackets -/

/-- An expression with groups of indices after it, each in its brackets. -/
def Expr.grouped (base : Expr) (groups : List (Location × List Expr)) : Expr :=
  groups.foldl (fun e group => .index group.1 e group.2) base

/-- The groups of indices differ in their brackets and in places only. -/
def Regroups (groups groups' : List (Location × List Expr)) : Prop :=
  groups ≠ [] ∧ groups' ≠ [] ∧
    (groups.flatMap Prod.snd).map (Expr.relocate Location.forget)
      = (groups'.flatMap Prod.snd).map (Expr.relocate Location.forget)

namespace Expr

theorem grouped_concat (base : Expr) (groups : List (Location × List Expr))
    (group : Location × List Expr) :
    base.grouped (groups.concat group) = .index group.1 (base.grouped groups) group.2 := by
  rw [grouped, List.concat_eq_append, List.foldl_append]
  rfl

theorem indexChain_grouped (base : Expr) (groups : List (Location × List Expr)) :
    (base.grouped groups).indexChain
      = (base.indexChain.1, base.indexChain.2 ++ groups.flatMap Prod.snd) := by
  induction groups generalizing base with
  | nil => simp only [grouped, List.foldl_nil, List.flatMap_nil, List.append_nil]
  | cons group groups ih =>
    show ((Expr.index group.1 base group.2).grouped groups).indexChain = _
    rw [ih, indexChain_index, List.flatMap_cons, List.append_assoc]

end Expr

theorem Regroups.indexChain {groups groups' : List (Location × List Expr)}
    (h : Regroups groups groups') {base base' : Expr}
    (hbase : base.relocate Location.forget = base'.relocate Location.forget) :
    ((base.grouped groups).relocate Location.forget).indexChain
      = ((base'.grouped groups').relocate Location.forget).indexChain := by
  have hchain := congrArg Expr.indexChain hbase
  rw [Expr.indexChain_relocate, Expr.indexChain_relocate, Prod.mk.injEq] at hchain
  rw [Expr.indexChain_relocate, Expr.indexChain_relocate, Expr.indexChain_grouped,
    Expr.indexChain_grouped, Prod.mk.injEq, List.map_append, List.map_append, hchain.2, h.2.2]
  exact ⟨hchain.1, rfl⟩

section

variable {turns : Nat} {chain : Chain} {groups groups' : List (Location × List Expr)}
  {base base' : Expr} {loc loc' : Location}

theorem matches_readIndex_grouped (h : Regroups groups groups')
    (hbase : base.relocate Location.forget = base'.relocate Location.forget) (levels : Nat) :
    Run.Matches ((machine turns levels).readIndex chain loc (base.grouped groups))
      ((machine turns levels).readIndex chain loc' (base'.grouped groups')) := by
  have hm := machine_matches Location.forget turns levels
  have hforget (e : Expr) (place : Location) :
      Run.Matches ((machine turns levels).readIndex chain place e)
        ((machine turns levels).readIndex chain .first (e.relocate Location.forget)) :=
    Machine.matches_readIndex hm place e
  refine (hforget _ loc).trans (Run.Matches.trans ?_ (hforget _ loc').symm)
  rw [Machine.readIndex, Machine.readIndex, h.indexChain hbase]
  exact .refl _

theorem matches_writeIndex_grouped (h : Regroups groups groups')
    (hbase : base.relocate Location.forget = base'.relocate Location.forget) {value value' : Expr}
    (hvalue : value.relocate Location.forget = value'.relocate Location.forget) (levels : Nat) :
    Run.Matches ((machine turns levels).writeIndex chain loc (base.grouped groups) value)
      ((machine turns levels).writeIndex chain loc' (base'.grouped groups') value') := by
  have hm := machine_matches Location.forget turns levels
  have hforget (e v : Expr) (place : Location) :
      Run.Matches ((machine turns levels).writeIndex chain place e v)
        ((machine turns levels).writeIndex chain .first (e.relocate Location.forget)
          (v.relocate Location.forget)) :=
    Machine.matches_writeIndex hm place e v
  refine (hforget _ _ loc).trans (Run.Matches.trans ?_ (hforget _ _ loc').symm)
  rw [Machine.writeIndex, Machine.writeIndex, h.indexChain hbase, hvalue]
  exact .refl _

/-- **Reading does not see the brackets.** -/
theorem matches_grouped (h : Regroups groups groups')
    (hbase : base.relocate Location.forget = base'.relocate Location.forget) (levels : Nat) :
    Run.Matches ((machine turns levels).eval chain (base.grouped groups))
      ((machine turns levels).eval chain (base'.grouped groups')) := by
  cases levels with
  | zero => exact .refl _
  | succ levels =>
    have hread (loc loc' : Location) :=
      @matches_readIndex_grouped turns chain groups groups' base base' loc loc' h hbase levels
    obtain ⟨init, last, rfl⟩ := (List.eq_nil_or_concat groups).resolve_left h.1
    obtain ⟨init', last', rfl⟩ := (List.eq_nil_or_concat groups').resolve_left h.2.1
    simp only [Expr.grouped_concat] at hread ⊢
    exact hread last.1 last'.1

/-- **Assigning does not see the brackets.** -/
theorem matches_assign_grouped (h : Regroups groups groups')
    (hbase : base.relocate Location.forget = base'.relocate Location.forget) {value value' : Expr}
    (hvalue : value.relocate Location.forget = value'.relocate Location.forget) (levels : Nat) :
    Run.Matches ((machine turns levels).exec chain (.assignCell loc (base.grouped groups) value))
      ((machine turns levels).exec chain
        (.assignCell loc' (base'.grouped groups') value')) := by
  cases levels with
  | zero => exact .refl _
  | succ levels =>
    rw [exec_machine, Machine.execRule, Machine.execRule, under_machine]
    exact (matches_writeIndex_grouped h hbase hvalue _).bind fun _ => .refl _

end

/-! ## The addresses of a literal -/

/-- The lists of indices that count from one in each dimension number the cells of a tensor. -/
def Tensor.Numbered (t : Tensor) : Prop :=
  (∀ indices, List.Forall₂ Counted indices t.shape →
    ∃ n < volume t.shape, t.offset indices = .ok n) ∧
  ∀ n < volume t.shape, ∃! indices, List.Forall₂ Counted indices t.shape ∧
    t.offset indices = .ok n

theorem Tensor.Filled.numbered {t : Tensor} (h : t.Filled) : t.Numbered := by
  refine ⟨fun indices hcounted => ?_, fun n hn => ?_⟩
  · have hvalid := forall₂_valid hcounted
    exact ⟨_, number_lt hvalid, h.offset_of_valid hvalid⟩
  · obtain ⟨indices, ⟨hcounted, rfl⟩, hunique⟩ := existsUnique_counted hn
    refine ⟨indices, ⟨hcounted, h.offset_of_valid (forall₂_valid hcounted)⟩, ?_⟩
    rintro other ⟨hother, ho⟩
    exact hunique other ⟨hother, (h.offset_eq_ok_iff.mp ho).2.symm⟩

/-- Wherever a tensor is held as it is given, to read it with some indices ends in one way: with any
index expression that stands for the tensor and the indices, and so with a name for the tensor and
the indices written out, given the levels that it takes. -/
structure ReadsAs (ref : TensorRef) (t : Tensor) (indices : List Int)
    (result : Location → Except Halt Value) : Prop where
  indexes : ∀ {turns levels chain place base es s u},
    (machine turns levels).Indexes chain place "INDEX" (.index place base es) s ref indices u →
    u.tensor ref = t →
    ((machine turns (levels + 1)).eval chain (.index place base es)).run.run s = (result place, u)
  points : ∀ {turns levels chain x s} {e : Expr}, e.Points x indices →
    s.get? chain x = some (.tns ref) → s.tensor ref = t → Machine.Weight.index + 1 < levels →
    ((machine turns levels).eval chain e).run.run s = (result e.location, s)

/-- Wherever a tensor is held as it is given, to assign with some indices is a fault, whatever the
value. -/
structure AssigningFails (ref : TensorRef) (t : Tensor) (indices : List Int) (p : IndexProblem) :
    Prop where
  indexes : ∀ {turns levels chain loc place x s u} {target : Expr} (value : Expr),
    target.indexChain.1 = .name place x →
    ((machine turns levels).under Machine.Weight.operand).Indexes chain loc "ASSIGN" target s ref
      indices u →
    u.tensor ref = t →
    ((machine turns (levels + 1)).exec chain (.assignCell loc target value)).run.run s
      = (.error (.fault (.index p) loc), u)
  points : ∀ {turns levels chain x s} {target : Expr} (loc : Location) (value : Expr),
    target.Points x indices → s.get? chain x = some (.tns ref) → s.tensor ref = t →
    Machine.Weight.index + Machine.Weight.operand < levels →
    ((machine turns (levels + 1)).exec chain (.assignCell loc target value)).run.run s
      = (.error (.fault (.index p) loc), s)

section

variable {ref : TensorRef} {t : Tensor} {indices : List Int} {n : Nat} {v : Value}
  {p : IndexProblem}

theorem readsAs_of_indexes {result : Location → Except Halt Value}
    (h : ∀ {turns levels chain place base es s u},
      (machine turns levels).Indexes chain place "INDEX" (.index place base es) s ref indices u →
      u.tensor ref = t →
      ((machine turns levels).readIndex chain place (.index place base es)).run.run s
        = (result place, u)) : ReadsAs ref t indices result where
  indexes := h
  points {turns levels chain x s e} he hx ht hl := by
    obtain ⟨k, rfl⟩ : ∃ k, levels = k + 1 := ⟨levels - 1, by omega⟩
    obtain ⟨place, base, es, rfl⟩ := he.index
    exact h (Machine.indexes_of_points he hx (Nat.lt_of_succ_lt_succ hl) place "INDEX") ht

theorem readsAs_ok (ho : t.offset indices = .ok n) (hv : t.cells[n]? = some v) :
    ReadsAs ref t indices fun _ => .ok v :=
  readsAs_of_indexes fun h ht => h.read (ht ▸ ho) (ht ▸ hv)

theorem readsAs_error (ho : t.offset indices = .error p) :
    ReadsAs ref t indices fun place => .error (.fault (.index p) place) :=
  readsAs_of_indexes fun h ht => h.read_error (ht ▸ ho)

theorem assigningFails (ho : t.offset indices = .error p) : AssigningFails ref t indices p := by
  have hindexes {turns levels chain loc place x s u} {target : Expr} (value : Expr)
      (hname : target.indexChain.1 = .name place x)
      (h : ((machine turns levels).under Machine.Weight.operand).Indexes chain loc "ASSIGN" target s
        ref indices u) (ht : u.tensor ref = t) :
      ((machine turns (levels + 1)).exec chain (.assignCell loc target value)).run.run s
        = (.error (.fault (.index p) loc), u) := by
    rw [exec_machine, Machine.execRule, run_bind, h.write_error hname (ht ▸ ho)]
  refine ⟨hindexes, fun {turns levels chain x s target} loc value he hx ht hl => ?_⟩
  obtain ⟨place, hname⟩ := he.name
  refine hindexes value hname ?_ ht
  rw [under_machine]
  exact Machine.indexes_of_points he hx (Nat.lt_sub_of_add_lt hl) loc "ASSIGN"

end

/-- **Tensor addressing is right.**

The tensor of a literal that gives a value has the shape of its nesting.  The lists of indices that
count from one in each dimension number its cells.  A list that counts from one, or from minus one
back, in each dimension leads to an item of the literal, and wherever the tensor is as it was made,
to read it with these indices gives the value that the item had.  With any other list, to read it
is a fault, and so is to assign to it.

A literal gives a value if it has a shape and its items have values.  One that is uneven, which is
to have no shape, gives none.  Reading and assigning are the same however the indices are divided
among brackets, but for the places of faults. -/
theorem tensor_addressing (turns levels : Nat) (chain : Chain) :
    (∀ loc parts s v t, let e : Expr := .tensor loc parts
      ((machine turns (levels + 1)).eval chain e).run.run s = (.ok v, t) →
      ∃ ref tensor, v = .tns ref ∧ t.tensor ref = tensor ∧ e.Nests tensor.shape ∧
        tensor.Numbered ∧ ∀ indices,
          (List.Forall₂ Tensor.Valid indices tensor.shape → ∃ w,
            (machine turns levels).HasItem chain e tensor.shape s indices w ∧
            ReadsAs ref tensor indices fun _ => .ok w) ∧
          (¬ List.Forall₂ Tensor.Valid indices tensor.shape → ∃ p,
            (ReadsAs ref tensor indices fun place => .error (.fault (.index p) place)) ∧
            AssigningFails ref tensor indices p)) ∧
    (∀ loc parts, let e : Expr := .tensor loc parts
      (∀ shape s vs u, e.Nests shape →
        ((machine turns levels).itemValues shape.length chain (e.items shape.length)).run.run s
          = (.ok vs, u) →
        ∃ v t, ((machine turns (levels + 1)).eval chain e).run.run s = (.ok v, t)) ∧
      (e.Uneven ↔ ∀ shape, ¬ e.Nests shape) ∧
      (e.Uneven → ∀ s, ∃ h t, ((machine turns levels).eval chain e).run.run s = (.error h, t))) ∧
    ∀ groups groups', Regroups groups groups' → ∀ base base' : Expr,
      base.relocate Location.forget = base'.relocate Location.forget →
      Run.Matches ((machine turns levels).eval chain (base.grouped groups))
        ((machine turns levels).eval chain (base'.grouped groups')) ∧
      ∀ loc loc' (value value' : Expr),
        value.relocate Location.forget = value'.relocate Location.forget →
        Run.Matches
          ((machine turns levels).exec chain (.assignCell loc (base.grouped groups) value))
          ((machine turns levels).exec chain
            (.assignCell loc' (base'.grouped groups') value')) := by
  refine ⟨?_, ?_, fun groups groups' h base base' hbase => ⟨matches_grouped h hbase levels,
    fun _ _ _ _ hvalue => matches_assign_grouped h hbase hvalue levels⟩⟩
  · intro loc parts s v t e h
    obtain ⟨shape, vs, u, hnests, hvs, rfl, rfl⟩ := eval_tensor_eq_ok_iff.mp h
    have hfilled : (Tensor.ofCells shape vs.toArray).Filled := by
      refine Tensor.filled_ofCells ?_
      rw [List.size_toArray, length_of_mapM hvs, hnests.length_items]
    refine ⟨_, .ofCells shape vs.toArray, rfl, ?_, hnests, hfilled.numbered,
      fun indices => ⟨fun hvalid => ?_, fun hinvalid => ?_⟩⟩
    · rw [Store.tensor_addTensor, if_pos rfl]
    · obtain ⟨w, hitem, hw⟩ := Machine.exists_hasItem hnests hvs hvalid
      refine ⟨w, hitem, readsAs_ok (hfilled.offset_of_valid hvalid) ?_⟩
      exact (List.getElem?_toArray ..).trans hw
    · obtain ⟨p, hp⟩ := hfilled.exists_offset_error hinvalid
      exact ⟨p, readsAs_error hp, assigningFails hp⟩
  · intro loc parts e
    refine ⟨fun shape s vs u hnests hvs => ?_, Expr.uneven_iff e, fun hu s => ?_⟩
    · exact ⟨_, _, eval_tensor_eq_ok_iff.mpr ⟨shape, vs, u, hnests, hvs, rfl, rfl⟩⟩
    rcases hrun : ((machine turns levels).eval chain e).run.run s with ⟨x | v, t⟩
    · exact ⟨x, t, rfl⟩
    · cases levels with
      | zero => cases hrun
      | succ levels =>
        obtain ⟨shape, -, -, hnests, -⟩ := eval_tensor_eq_ok_iff.mp hrun
        exact absurd hnests (hu.not_nests shape)

/-- `[[1, 2, 3], [4, 5, 6]][-1][2]` is `5`, and with an empty pair of brackets before the others it
is the same; `[[1, 2, 3], [4, 5, 6]][2]` is a fault, and `[[1], []]` gives no value. -/
theorem tensor_addressing_two_rows :
    let number (n : Int) : Expr := .literal ⟨1, 1⟩ (.int n)
    let row (ns : List Int) : Expr := .tensor ⟨1, 1⟩ (ns.map number)
    let e : Expr := .tensor ⟨1, 1⟩ [row [1, 2, 3], row [4, 5, 6]]
    let run (e : Expr) := ((machine 9 30).eval Store.globalChain e).run.run .initial
    (run (e.grouped [(⟨1, 1⟩, [number (-1)]), (⟨1, 2⟩, [number 2])])).1 = .ok (.int 5) ∧
    (run (e.grouped [(⟨1, 1⟩, []), (⟨1, 2⟩, [number (-1), number 2])])).1 = .ok (.int 5) ∧
    (∃ p, (run (e.grouped [(⟨1, 1⟩, [number 2])])).1 = .error (.fault (.index p) ⟨1, 1⟩)) ∧
    ∃ h t, run (.tensor ⟨1, 1⟩ [row [1], row []]) = (.error h, t) := by
  intro number row e run
  obtain ⟨-, huneven, hgroups⟩ := tensor_addressing 9 30 Store.globalChain
  obtain ⟨ref, tensor, hv, rfl, -, -, hindices⟩ :=
    (tensor_addressing 9 29 Store.globalChain).1 ⟨1, 1⟩ [row [1, 2, 3], row [4, 5, 6]]
      .initial _ _ rfl
  obtain rfl := Value.tns.inj hv
  have hread : (run (.index ⟨1, 1⟩ e [number (-1), number 2])).1 = .ok (.int 5) := by
    have hvalid : List.Forall₂ Tensor.Valid [-1, 2] [2, 3] :=
      .cons (.inr ⟨by decide, by decide⟩) (.cons (.inl ⟨by decide, by decide⟩) .nil)
    obtain ⟨w, ⟨item, before, u, t, hfollow, -, -, hitem⟩, hreads⟩ := (hindices [-1, 2]).1 hvalid
    obtain rfl : number 5 = item := Option.some.inj hfollow
    obtain rfl : Value.int 5 = w := Except.ok.inj (congrArg Prod.fst hitem)
    have hrun := @ReadsAs.indexes _ _ _ _ hreads 9 29 Store.globalChain ⟨1, 1⟩ e
      [number (-1), number 2] .initial _ ⟨_, rfl, rfl⟩ rfl
    exact congrArg Prod.fst hrun
  have hregroup (groups : List (Location × List Expr))
      (h : Regroups [(⟨1, 1⟩, [number (-1), number 2])] groups) :
      (run (e.grouped groups)).1 = .ok (.int 5) :=
    (hgroups _ _ h e e rfl).1.eq_ok hread
  refine ⟨hregroup _ ⟨nofun, nofun, rfl⟩, hregroup _ ⟨nofun, nofun, rfl⟩, ?_, ?_⟩
  · have hinvalid : ¬ List.Forall₂ Tensor.Valid [2] [2, 3] := fun h => nomatch h.length_eq
    obtain ⟨p, hreads, -⟩ := (hindices [2]).2 hinvalid
    have hrun := @ReadsAs.indexes _ _ _ _ hreads 9 29 Store.globalChain ⟨1, 1⟩ e [number 2]
      .initial _ ⟨_, rfl, rfl⟩ rfl
    exact ⟨p, congrArg Prod.fst hrun⟩
  · exact (huneven ⟨1, 1⟩ [row [1], row []]).2.2
      (.part (List.mem_cons_of_mem _ (List.mem_singleton_self _)) .empty) .initial

end SpanScript
