import Mathlib.Data.Finset.Card
import Mathlib.Data.Finset.Filter
import SpanScript.Proofs.Value.Addressing
import SpanScript.Proofs.Value.Containing

/-!
# Equality of values

A value is plain if it contains no floating point number and no tensor that contains itself.  The
tensors that a plain value contains lie within each other no deeper than there are tensors, so
with that many levels its equality to any value is found.  The answer is whether the two are
congruent: the same integer, the same text, or tensors of one shape with congruent cells.

Congruent values cannot be told apart by their kinds, truth and texts, nor by the shapes of
tensors and what indices address.  Values that are not congruent differ somewhere: in their kind,
their shape, or in what some indices lead to.

* `Store.Plain`, `Plain.nested`: how deep plain values are.
* `Store.Congruent`, `Congruent.refl`, `Congruent.symm`, `Congruent.trans`: the relation.
* `decides_equal`, `equal_of_plain`: equality finds it.
* `Congruent.truth`, `Congruent.text`, `Congruent.offset`: what is the same of congruent values.
* `Store.Differ`, `differ_iff_not_congruent`: where others differ.
-/

namespace SpanScript.Store

variable {s : Store} {a b c v w : Value} {p q ref : TensorRef} {n : Nat}

/-! ## Plain values -/

/-- A value is plain: there is no floating point number in it at any depth, and no tensor in it
contains itself. -/
structure Plain (s : Store) (v : Value) : Prop where
  kind : v.kind ≠ .flt
  kinds : ∀ ref, s.Contains ref v → ∀ w ∈ (s.tensor ref).cells, w.kind ≠ .flt
  acyclic : ∀ ref, s.Contains ref v → ∀ w ∈ (s.tensor ref).cells, ¬ s.Contains ref w

theorem Plain.cell (h : s.Plain (.tns ref)) (hw : w ∈ (s.tensor ref).cells) : s.Plain w where
  kind := h.kinds ref .self w hw
  kinds r hr := h.kinds r (.cell hw hr)
  acyclic r hr := h.acyclic r (.cell hw hr)

/-- A tensor of integers and texts is plain. -/
theorem plain_of_kinds (h : ∀ w ∈ (s.tensor ref).cells, w.kind = .int ∨ w.kind = .str) :
    s.Plain (.tns ref) := by
  have hno {r : TensorRef} {w : Value} (hw : w ∈ (s.tensor ref).cells) : ¬ s.Contains r w := by
    intro hr
    have htns := hr.kind
    rcases h w hw with hkind | hkind <;> rw [hkind] at htns <;> cases htns
  have hself {r : TensorRef} (hr : s.Contains r (.tns ref)) : r = ref := by
    cases hr with
    | self => rfl
    | cell hw hr => exact absurd hr (hno hw)
  refine ⟨nofun, fun r hr w hw => ?_, fun r hr w hw => ?_⟩
  · obtain rfl := hself hr
    rcases h w hw with hkind | hkind <;> rw [hkind] <;> exact nofun
  · obtain rfl := hself hr
    exact hno hw

/-- The tensors of a value lie within each other at most so deep. -/
inductive Nested (s : Store) : Nat → Value → Prop
  | leaf {n : Nat} {v : Value} : v.kind ≠ .tns → Nested s n v
  | tensor {n : Nat} {ref : TensorRef} : (∀ w ∈ (s.tensor ref).cells, Nested s n w) →
    Nested s (n + 1) (.tns ref)

theorem cells_of_size_le (h : s.tensors.size ≤ ref) : (s.tensor ref).cells = #[] := by
  rw [Store.tensor, Array.getElem?_eq_none h]
  rfl

open Classical in
/-- The tensors that a plain value contains, counted. -/
theorem nested_of_card : ∀ (n : Nat) {v : Value}, s.Plain v →
    ((Finset.range s.tensors.size).filter fun r => s.Contains r v).card ≤ n →
    s.Nested (n + 1) v := by
  intro n
  induction n with
  | zero =>
    intro v _ hcard
    cases v with
    | tns ref =>
      refine .tensor fun w hw => ?_
      have hout : s.tensors.size ≤ ref := by
        by_contra hin
        have hmem : ref ∈ (Finset.range s.tensors.size).filter fun r => s.Contains r (.tns ref) :=
          Finset.mem_filter.mpr ⟨Finset.mem_range.mpr (by omega), .self⟩
        exact absurd (Finset.card_pos.mpr ⟨ref, hmem⟩) (by omega)
      rw [cells_of_size_le hout] at hw
      exact absurd hw (Array.not_mem_empty w)
    | _ => exact .leaf nofun
  | succ n ih =>
    intro v hv hcard
    cases v with
    | tns ref =>
      refine .tensor fun w hw => ih (hv.cell hw) ?_
      have hin : ref < s.tensors.size := by
        by_contra hout
        rw [cells_of_size_le (Nat.le_of_not_lt hout)] at hw
        exact absurd hw (Array.not_mem_empty w)
      -- a cell contains less than its tensor: not the tensor itself
      have hless : ((Finset.range s.tensors.size).filter fun r => s.Contains r w).card
          < ((Finset.range s.tensors.size).filter fun r => s.Contains r (.tns ref)).card := by
        refine Finset.card_lt_card ⟨fun r hr => ?_, fun hsub => ?_⟩
        · obtain ⟨hr, hcontains⟩ := Finset.mem_filter.mp hr
          exact Finset.mem_filter.mpr ⟨hr, .cell hw hcontains⟩
        · have hmem := hsub (Finset.mem_filter.mpr ⟨Finset.mem_range.mpr hin, .self⟩)
          exact hv.acyclic ref .self w hw (Finset.mem_filter.mp hmem).2
      omega
    | _ => exact .leaf nofun

open Classical in
/-- **Plain values are no deeper than there are tensors.** -/
theorem Plain.nested (h : s.Plain v) : s.Nested (s.tensors.size + 1) v :=
  nested_of_card _ h ((Finset.card_filter_le _ _).trans (Finset.card_range _).le)

/-! ## Congruent values -/

/-- Two values are the same integer, the same text, or tensors of one shape with cells that are
congruent one by one. -/
inductive Congruent (s : Store) : Value → Value → Prop
  | int (n : Int) : Congruent s (.int n) (.int n)
  | str (t : String) : Congruent s (.str t) (.str t)
  | tensor {p q : TensorRef} : (s.tensor p).shape = (s.tensor q).shape →
    (s.tensor p).cells.size = (s.tensor q).cells.size →
    (∀ {i : Nat} {v w : Value}, (s.tensor p).cells[i]? = some v →
      (s.tensor q).cells[i]? = some w → Congruent s v w) →
    Congruent s (.tns p) (.tns q)

theorem forall₂_of_getElem? {R : Value → Value → Prop} {as bs : Array Value}
    (hsize : as.size = bs.size)
    (h : ∀ {i : Nat} {v w}, as[i]? = some v → bs[i]? = some w → R v w) :
    List.Forall₂ R as.toList bs.toList := by
  refine List.forall₂_iff_get.mpr ⟨hsize, fun i hi hi' => h (i := i) ?_ ?_⟩
  · exact Array.getElem?_eq_getElem hi
  · exact Array.getElem?_eq_getElem hi'

theorem getElem?_of_forall₂ {R : Value → Value → Prop} {as bs : Array Value}
    (h : List.Forall₂ R as.toList bs.toList) {i : Nat} (hv : as[i]? = some v)
    (hw : bs[i]? = some w) : R v w := by
  obtain ⟨hi, rfl⟩ := Array.getElem?_eq_some_iff.mp hv
  obtain ⟨hi', rfl⟩ := Array.getElem?_eq_some_iff.mp hw
  exact (List.forall₂_iff_get.mp h).2 i hi hi'

theorem congruent_tns_iff : s.Congruent (.tns p) (.tns q) ↔
    (s.tensor p).shape = (s.tensor q).shape ∧
      List.Forall₂ s.Congruent (s.tensor p).cells.toList (s.tensor q).cells.toList := by
  constructor
  · intro h
    cases h with
    | tensor hshape hsize hcells => exact ⟨hshape, forall₂_of_getElem? hsize hcells⟩
  · rintro ⟨hshape, hcells⟩
    exact .tensor hshape hcells.length_eq (getElem?_of_forall₂ hcells)

/-- A value of finite depth without floating point numbers is congruent to itself. -/
theorem Nested.congruent (h : s.Nested n v) (hv : s.Plain v) : s.Congruent v v := by
  induction h with
  | @leaf n v hkind =>
    cases v with
    | int n => exact .int n
    | str t => exact .str t
    | flt x => exact absurd rfl hv.kind
    | tns ref => exact absurd rfl hkind
  | tensor _ ih =>
    refine .tensor rfl rfl fun {i u w} hu hw => ?_
    obtain rfl : u = w := Option.some.inj (hu.symm.trans hw)
    have hmem := Array.mem_of_getElem? hu
    exact ih u hmem (hv.cell hmem)

theorem Congruent.refl (h : s.Plain v) : s.Congruent v v := h.nested.congruent h

theorem Congruent.symm (h : s.Congruent a b) : s.Congruent b a := by
  induction h with
  | int n => exact .int n
  | str t => exact .str t
  | tensor hshape hsize _ ih => exact .tensor hshape.symm hsize.symm fun hv hw => ih hw hv

theorem Congruent.trans (h : s.Congruent a b) (h' : s.Congruent b c) : s.Congruent a c := by
  induction h generalizing c with
  | int n => exact h'
  | str t => exact h'
  | @tensor p q hshape hsize _ ih =>
    cases h' with
    | @tensor _ r hshape' hsize' hcells' =>
      refine .tensor (hshape.trans hshape') (hsize.trans hsize') fun {i v w} hv hw => ?_
      -- the cell of the tensor between the two
      obtain ⟨hi, -⟩ := Array.getElem?_eq_some_iff.mp hv
      have hu : (s.tensor q).cells[i]? = some (s.tensor q).cells[i] :=
        Array.getElem?_eq_getElem (hsize ▸ hi)
      exact ih hv hu (hcells' hu hw)

/-! ## Tensors of one shape -/

theorem size_of_shape (hs : ∀ ref, (s.tensor ref).Filled)
    (h : (s.tensor p).shape = (s.tensor q).shape) :
    (s.tensor p).cells.size = (s.tensor q).cells.size := by
  rw [(hs p).size, (hs q).size, h]

theorem offset_of_shape (hs : ∀ ref, (s.tensor ref).Filled)
    (h : (s.tensor p).shape = (s.tensor q).shape) (indices : List Int) :
    (s.tensor p).offset indices = (s.tensor q).offset indices := by
  rw [Tensor.offset, Tensor.offset, (hs p).strides, (hs q).strides, h]

/-! ## Equality -/

/-- A reading goes too deep, or it tells whether something holds. -/
def Decides (x : Except Halt Bool) (P : Prop) : Prop :=
  x = .error .tooDeep ∨ (x = .ok true ∧ P) ∨ (x = .ok false ∧ ¬ P)

theorem decides_beq {α : Type} [BEq α] [LawfulBEq α] (x y : α) {P : Prop} (h : x = y ↔ P) :
    Decides (.ok (x == y)) P := by
  by_cases hxy : x = y
  · exact .inr (.inl ⟨by rw [hxy, beq_self_eq_true], h.mp hxy⟩)
  · exact .inr (.inr ⟨by rw [beq_eq_false_iff_ne.mpr hxy], fun hP => hxy (h.mpr hP)⟩)

theorem decides_allEqual {test : Value → Value → Except Halt Bool} {R : Value → Value → Prop} :
    ∀ {as bs : List Value}, as.length = bs.length →
      (∀ a ∈ as, ∀ b ∈ bs, Decides (test a b) (R a b)) →
      Decides (allEqual test as bs) (List.Forall₂ R as bs) := by
  intro as
  induction as with
  | nil =>
    intro bs hlength _
    obtain rfl := List.length_eq_zero_iff.mp hlength.symm
    exact .inr (.inl ⟨rfl, .nil⟩)
  | cons a as ih =>
    intro bs hlength h
    cases bs with
    | nil => cases hlength
    | cons b bs =>
      have hrest := @ih bs (Nat.succ.inj hlength) fun c hc d hd =>
        h c (List.mem_cons_of_mem _ hc) d (List.mem_cons_of_mem _ hd)
      rw [allEqual]
      rcases h a (List.mem_cons_self ..) b (List.mem_cons_self ..) with ha | ⟨ha, hR⟩ | ⟨ha, hR⟩
      · exact .inl (by rw [ha]; rfl)
      · rw [ha]
        show Decides (allEqual test as bs) _
        rcases hrest with hrest | ⟨hrest, hall⟩ | ⟨hrest, hall⟩
        · exact .inl hrest
        · exact .inr (.inl ⟨hrest, .cons hR hall⟩)
        · exact .inr (.inr ⟨hrest, fun hcons => hall (List.forall₂_cons.mp hcons).2⟩)
      · rw [ha]
        exact .inr (.inr ⟨rfl, fun hcons => hR (List.forall₂_cons.mp hcons).1⟩)

/-- **Equality finds whether a plain value is congruent to another**, or goes too deep. -/
theorem decides_equal (hs : ∀ ref, (s.tensor ref).Filled) : ∀ (levels : Nat) {a b : Value},
    s.Plain a → Decides (s.equal levels a b) (s.Congruent a b) := by
  have hleaf {levels : Nat} {a b : Value} (ha : s.Plain a) (hkind : a.kind ≠ .tns) :
      Decides (s.equal levels a b) (s.Congruent a b) := by
    cases a with
    | int m =>
      cases b with
      | int n =>
        cases levels <;> exact decides_beq m n ⟨fun h => h ▸ .int m, fun h => by cases h; rfl⟩
      | _ => cases levels <;> exact .inr (.inr ⟨rfl, nofun⟩)
    | str t =>
      cases b with
      | str u =>
        cases levels <;> exact decides_beq t u ⟨fun h => h ▸ .str t, fun h => by cases h; rfl⟩
      | _ => cases levels <;> exact .inr (.inr ⟨rfl, nofun⟩)
    | flt x => exact absurd rfl ha.kind
    | tns ref => exact absurd rfl hkind
  intro levels
  induction levels with
  | zero =>
    intro a b ha
    cases a with
    | tns p =>
      cases b with
      | tns q => exact .inl rfl
      | _ => exact .inr (.inr ⟨rfl, nofun⟩)
    | _ => exact hleaf ha nofun
  | succ levels ih =>
    intro a b ha
    cases a with
    | tns p =>
      cases b with
      | tns q =>
        rw [equal]
        by_cases hshape : (s.tensor p).shape = (s.tensor q).shape
        · rw [if_pos hshape]
          have hcells := decides_allEqual (size_of_shape hs hshape) fun v hv w _ =>
            ih (b := w) (ha.cell (Array.mem_toList_iff.mp hv))
          rcases hcells with h | ⟨h, hall⟩ | ⟨h, hall⟩
          · exact .inl h
          · exact .inr (.inl ⟨h, congruent_tns_iff.mpr ⟨hshape, hall⟩⟩)
          · exact .inr (.inr ⟨h, fun hcongruent => hall (congruent_tns_iff.mp hcongruent).2⟩)
        · rw [if_neg hshape]
          exact .inr (.inr ⟨rfl, fun hcongruent => hshape (congruent_tns_iff.mp hcongruent).1⟩)
      | _ => exact .inr (.inr ⟨rfl, nofun⟩)
    | _ => exact hleaf ha nofun

theorem exists_of_allEqual {test : Value → Value → Except Halt Bool} : ∀ {as bs : List Value},
    (∀ a ∈ as, ∀ b, ∃ c, test a b = .ok c) → ∃ c, allEqual test as bs = .ok c := by
  intro as
  induction as with
  | nil => exact fun _ => ⟨true, rfl⟩
  | cons a as ih =>
    intro bs h
    cases bs with
    | nil => exact ⟨true, rfl⟩
    | cons b bs =>
      obtain ⟨c, hc⟩ := h a (List.mem_cons_self ..) b
      rw [allEqual, hc]
      cases c with
      | true => exact ih fun d hd => h d (List.mem_cons_of_mem _ hd)
      | false => exact ⟨false, rfl⟩

/-- With as many levels as a value is deep its equality to any other is found. -/
theorem Nested.equal_ok (h : s.Nested n a) : ∀ {levels : Nat}, n ≤ levels → ∀ b : Value,
    ∃ c, s.equal levels a b = .ok c := by
  induction h with
  | @leaf n a hkind =>
    intro levels _ b
    cases a with
    | tns ref => exact absurd rfl hkind
    | _ => cases levels <;> cases b <;> exact ⟨_, rfl⟩
  | @tensor n p _ ih =>
    intro levels hlevels b
    obtain ⟨k, rfl⟩ : ∃ k, levels = k + 1 := ⟨levels - 1, by omega⟩
    cases b with
    | tns q =>
      rw [equal]
      by_cases hshape : (s.tensor p).shape = (s.tensor q).shape
      · rw [if_pos hshape]
        exact exists_of_allEqual fun v hv w => ih v (Array.mem_toList_iff.mp hv) (by omega) w
      · exact ⟨false, if_neg hshape⟩
    | _ => exact ⟨false, rfl⟩

/-- EQ holds of two values: looked at deep enough, they are found equal. -/
def Equals (s : Store) (a b : Value) : Prop := ∃ levels, s.equal levels a b = .ok true

theorem equals_iff_congruent (hs : ∀ ref, (s.tensor ref).Filled) (ha : s.Plain a) :
    s.Equals a b ↔ s.Congruent a b := by
  constructor
  · rintro ⟨levels, h⟩
    rcases decides_equal hs levels (b := b) ha with h' | ⟨-, hcongruent⟩ | ⟨h', -⟩
    · rw [h'] at h
      cases h
    · exact hcongruent
    · rw [h'] at h
      cases h
  · intro hcongruent
    refine ⟨s.tensors.size + 1, ?_⟩
    obtain ⟨c, hc⟩ := ha.nested.equal_ok (Nat.le_refl _) b
    rcases decides_equal hs (s.tensors.size + 1) (b := b) ha with h | ⟨h, -⟩ | ⟨-, hnot⟩
    · rw [hc] at h
      cases h
    · exact h
    · exact absurd hcongruent hnot

open Classical in
/-- **The answer does not depend on how deep one may look**, if there is one; with more levels than
there are tensors there is. -/
theorem equal_of_plain (hs : ∀ ref, (s.tensor ref).Filled) (ha : s.Plain a) (b : Value)
    (levels : Nat) :
    (s.equal levels a b = .error .tooDeep ∧ levels ≤ s.tensors.size) ∨
      s.equal levels a b = .ok (decide (s.Equals a b)) := by
  rcases decides_equal hs levels (b := b) ha with h | ⟨h, hcongruent⟩ | ⟨h, hnot⟩
  · refine .inl ⟨h, ?_⟩
    by_contra hmore
    have hlevels : s.tensors.size + 1 ≤ levels := by omega
    obtain ⟨c, hc⟩ := ha.nested.equal_ok hlevels b
    rw [hc] at h
    cases h
  · rw [h, decide_eq_true ((equals_iff_congruent hs ha).mpr hcongruent)]
    exact .inr rfl
  · rw [h, decide_eq_false fun heq => hnot ((equals_iff_congruent hs ha).mp heq)]
    exact .inr rfl

/-! ## What is the same of congruent values -/

theorem Congruent.kind (h : s.Congruent a b) : a.kind = b.kind := by
  cases h <;> rfl

theorem anyOf_of_forall₂ {test : Value → Except Halt Bool} {as bs : List Value}
    (h : List.Forall₂ (fun a b => test a = test b) as bs) : anyOf test as = anyOf test bs := by
  induction h with
  | nil => rfl
  | cons hab _ ih => rw [anyOf, anyOf, hab, ih]

theorem mapM_of_forall₂ {read : Value → Except Halt String} {as bs : List Value}
    (h : List.Forall₂ (fun a b => read a = read b) as bs) : as.mapM read = bs.mapM read := by
  induction h with
  | nil => rfl
  | cons hab _ ih => rw [List.mapM_cons, List.mapM_cons, hab, ih]

/-- **Congruent values are both true or both false.** -/
theorem Congruent.truth (h : s.Congruent a b) : ∀ levels, s.truth levels a = s.truth levels b := by
  induction h with
  | int n => exact fun _ => rfl
  | str t => exact fun _ => rfl
  | tensor _ hsize _ ih =>
    intro levels
    cases levels with
    | zero => rfl
    | succ levels =>
      exact anyOf_of_forall₂ (forall₂_of_getElem? hsize fun hv hw => ih hv hw levels)

/-- **Congruent values have the same text.** -/
theorem Congruent.text (h : s.Congruent a b) : ∀ levels, s.text levels a = s.text levels b := by
  induction h with
  | int n => exact fun _ => rfl
  | str t => exact fun _ => rfl
  | tensor _ hsize _ ih =>
    intro levels
    cases levels with
    | zero => rfl
    | succ levels =>
      rw [text_tns, text_tns,
        mapM_of_forall₂ (forall₂_of_getElem? hsize fun hv hw => ih hv hw levels)]

theorem Congruent.shape (h : s.Congruent (.tns p) (.tns q)) :
    (s.tensor p).shape = (s.tensor q).shape := (congruent_tns_iff.mp h).1

/-- **Indices address the same of congruent tensors**: the same cells, which are congruent, or in
both nothing. -/
theorem Congruent.offset (hs : ∀ ref, (s.tensor ref).Filled) (h : s.Congruent (.tns p) (.tns q))
    (indices : List Int) :
    (s.tensor p).offset indices = (s.tensor q).offset indices ∧
      ∀ n, (s.tensor p).offset indices = .ok n →
        ∃ v ∈ (s.tensor p).cells[n]?, ∃ w ∈ (s.tensor q).cells[n]?, s.Congruent v w := by
  have hsame := offset_of_shape hs h.shape indices
  refine ⟨hsame, fun n hn => ?_⟩
  have hv := Array.getElem?_eq_getElem ((hs p).offset_lt hn)
  have hw := Array.getElem?_eq_getElem ((hs q).offset_lt (hsame ▸ hn))
  exact ⟨_, hv, _, hw, getElem?_of_forall₂ (congruent_tns_iff.mp h).2 hv hw⟩

/-! ## Values that differ -/

/-- Two values differ: in their kinds, as integers, as texts, in the shapes of tensors, or in what
some indices lead to in both. -/
inductive Differ (s : Store) : Value → Value → Prop
  | kind {a b : Value} : a.kind ≠ b.kind → Differ s a b
  | int {m n : Int} : m ≠ n → Differ s (.int m) (.int n)
  | str {t u : String} : t ≠ u → Differ s (.str t) (.str u)
  | shape {p q : TensorRef} : (s.tensor p).shape ≠ (s.tensor q).shape → Differ s (.tns p) (.tns q)
  | cell {p q : TensorRef} {indices : List Int} {i j : Nat} {v w : Value} :
    (s.tensor p).offset indices = .ok i → (s.tensor q).offset indices = .ok j →
    (s.tensor p).cells[i]? = some v → (s.tensor q).cells[j]? = some w → Differ s v w →
    Differ s (.tns p) (.tns q)

theorem Differ.not_congruent (hs : ∀ ref, (s.tensor ref).Filled) (h : s.Differ a b) :
    ¬ s.Congruent a b := by
  induction h with
  | kind hkind => exact fun hcongruent => hkind hcongruent.kind
  | int hne =>
    intro hcongruent
    cases hcongruent
    exact hne rfl
  | str hne =>
    intro hcongruent
    cases hcongruent
    exact hne rfl
  | shape hne => exact fun hcongruent => hne hcongruent.shape
  | @cell p q indices i j v w hi hj hv hw _ ih =>
    intro hcongruent
    rw [offset_of_shape hs hcongruent.shape, hj] at hi
    obtain rfl := Except.ok.inj hi
    exact ih (getElem?_of_forall₂ (congruent_tns_iff.mp hcongruent).2 hv hw)

/-- A value of finite depth that is not congruent to another differs from it somewhere. -/
theorem Nested.differ (hs : ∀ ref, (s.tensor ref).Filled) (h : s.Nested n a) :
    s.Plain a → ∀ {b : Value}, ¬ s.Congruent a b → s.Differ a b := by
  induction h with
  | @leaf n a hkind =>
    intro ha b hnot
    by_cases hkinds : a.kind = b.kind
    · cases a with
      | int m =>
        cases b with
        | int n => exact .int fun h => hnot (h ▸ .int m)
        | _ => cases hkinds
      | str t =>
        cases b with
        | str u => exact .str fun h => hnot (h ▸ .str t)
        | _ => cases hkinds
      | flt x => exact absurd rfl ha.kind
      | tns ref => exact absurd rfl hkind
    · exact .kind hkinds
  | @tensor n p _ ih =>
    intro ha b hnot
    cases b with
    | tns q =>
      by_cases hshape : (s.tensor p).shape = (s.tensor q).shape
      · have hsize := size_of_shape hs hshape
        have hsome : ∃ (i : Nat) (v w : Value), (s.tensor p).cells[i]? = some v ∧
            (s.tensor q).cells[i]? = some w ∧ ¬ s.Congruent v w := by
          by_contra hnone
          refine hnot (.tensor hshape hsize fun {i v w} hv hw => ?_)
          by_contra hne
          exact hnone ⟨i, v, w, hv, hw, hne⟩
        obtain ⟨i, v, w, hv, hw, hne⟩ := hsome
        obtain ⟨hi, -⟩ := Array.getElem?_eq_some_iff.mp hv
        -- the indices of the cell, counted from one
        obtain ⟨indices, ⟨hcounted, hnumber⟩, -⟩ := Tensor.existsUnique_counted ((hs p).size ▸ hi)
        have ho : (s.tensor p).offset indices = .ok i :=
          hnumber ▸ (hs p).offset_of_valid (Tensor.forall₂_valid hcounted)
        have hmem := Array.mem_of_getElem? hv
        exact .cell ho (offset_of_shape hs hshape indices ▸ ho) hv hw (ih v hmem (ha.cell hmem) hne)
      · exact .shape hshape
    | _ => exact .kind nofun

/-- **Plain values differ exactly if they are not congruent.** -/
theorem differ_iff_not_congruent (hs : ∀ ref, (s.tensor ref).Filled) (ha : s.Plain a) :
    s.Differ a b ↔ ¬ s.Congruent a b :=
  ⟨fun h => h.not_congruent hs, fun h => ha.nested.differ hs ha h⟩

end SpanScript.Store
