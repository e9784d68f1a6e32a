import SpanScript.Proofs.Store.Extension
import SpanScript.Proofs.Value.Reading

/-!
# What a value contains

A value contains a tensor when it is the tensor, or a cell of the tensor that it is contains it.
The text of a value and its equality to another look at the tensors that these contain and at no
others, so a change to one tensor shows only in values that contain it.  A number or a text contains
none.

* `Store.Contains`: the tensors that a value contains, and `Contains.lt`: they are no newer than it.
* `text_of_contains`, `equal_of_contains`: where readings look.
* `Store.ReadsSame`: a value that reads as it did, and `readsSame_of_others`: a change to another
  tensor.
-/

namespace SpanScript.Store

/-- A value contains the tensor at a reference: it is that tensor, or a cell of the tensor that it
is contains it. -/
inductive Contains (s : Store) (ref : TensorRef) : Value → Prop
  | self : Contains s ref (.tns ref)
  | cell {r : TensorRef} {v : Value} : v ∈ (s.tensor r).cells → Contains s ref v →
    Contains s ref (.tns r)

variable {D : Prop} {s t : Store} {ref : TensorRef} {v : Value}

/-- Only tensors contain tensors. -/
theorem Contains.kind (h : s.Contains ref v) : v.kind = .tns := by
  cases h <;> rfl

/-- What a value of an earlier store contains was held there, if the tensors have stayed as they
were. -/
theorem Contains.lt (h : t.Contains ref v) (hs : s.Sound D)
    (ht : ∀ r < s.tensors.size, t.tensor r = s.tensor r) (hv : v.Held s) :
    ref < s.tensors.size := by
  induction h with
  | self => exact hv
  | @cell r v hcell _ ih =>
    rw [ht r hv] at hcell
    exact ih (hs.cells r v hcell)

/-! ## Where readings look -/

theorem mapM_congr {α β : Type} {f g : α → Except Halt β} : ∀ {as : List α},
    (∀ a ∈ as, f a = g a) → as.mapM f = as.mapM g := by
  intro as
  induction as with
  | nil => exact fun _ => rfl
  | cons a as ih =>
    intro h
    rw [List.mapM_cons, List.mapM_cons, h a (List.mem_cons_self ..),
      ih fun b hb => h b (List.mem_cons_of_mem _ hb)]

theorem allEqual_congr {test test' : Value → Value → Except Halt Bool} : ∀ {as bs : List Value},
    (∀ a ∈ as, ∀ b ∈ bs, test a b = test' a b) → allEqual test as bs = allEqual test' as bs := by
  intro as
  induction as with
  | nil => exact fun _ => rfl
  | cons a as ih =>
    intro bs h
    cases bs with
    | nil => rfl
    | cons b bs =>
      have hrest := @ih bs fun c hc d hd =>
        h c (List.mem_cons_of_mem _ hc) d (List.mem_cons_of_mem _ hd)
      rw [allEqual, allEqual, h a (List.mem_cons_self ..) b (List.mem_cons_self ..), hrest]

/-- **The text of a value** is found in the tensors that it contains. -/
theorem text_of_contains : ∀ (levels : Nat) {v : Value},
    (∀ r, s.Contains r v → t.tensor r = s.tensor r) → t.text levels v = s.text levels v := by
  intro levels
  induction levels with
  | zero =>
    intro v _
    cases v with
    | int n => rw [text_int, text_int]
    | _ => rfl
  | succ levels ih =>
    intro v h
    cases v with
    | int n => rw [text_int, text_int]
    | tns ref =>
      have hcells : (s.tensor ref).cells.toList.mapM (t.text levels)
          = (s.tensor ref).cells.toList.mapM (s.text levels) :=
        mapM_congr fun v hv => ih fun r hr => h r (.cell (Array.mem_toList_iff.mp hv) hr)
      rw [text_tns, text_tns, h ref .self, hcells]
    | _ => rfl

/-- **The equality of two values** is found in the tensors that they contain. -/
theorem equal_of_contains : ∀ (levels : Nat) {a b : Value},
    (∀ r, s.Contains r a → t.tensor r = s.tensor r) →
    (∀ r, s.Contains r b → t.tensor r = s.tensor r) →
    t.equal levels a b = s.equal levels a b := by
  intro levels
  induction levels with
  | zero =>
    intro a b _ _
    cases a <;> cases b <;> rfl
  | succ levels ih =>
    intro a b ha hb
    cases a <;> cases b
    case tns.tns x y =>
      have hcells : allEqual (t.equal levels) (s.tensor x).cells.toList (s.tensor y).cells.toList
          = allEqual (s.equal levels) (s.tensor x).cells.toList (s.tensor y).cells.toList :=
        allEqual_congr fun c hc d hd =>
          ih (fun r hr => ha r (.cell (Array.mem_toList_iff.mp hc) hr))
            fun r hr => hb r (.cell (Array.mem_toList_iff.mp hd) hr)
      rw [equal, equal, ha x .self, hb y .self, hcells]
    all_goals rfl

/-- What is no tensor is equal to the same values, whatever becomes of tensors. -/
theorem equal_of_kind (hv : v.kind ≠ .tns) (levels : Nat) (y : Value) :
    t.equal levels v y = s.equal levels v y ∧ t.equal levels y v = s.equal levels y v := by
  cases v with
  | tns ref => exact absurd rfl hv
  | _ => cases levels <;> cases y <;> exact ⟨rfl, rfl⟩

/-! ## Changes that do not show -/

/-- After a change to a tensor a value still reads as it did: its text is the same, and so is its
equality to any value, or if it is a tensor itself, to any that does not contain the changed one. -/
def ReadsSame (s : Store) (ref : TensorRef) (t : Store) (v : Value) : Prop :=
  ∀ levels, t.text levels v = s.text levels v ∧
    ∀ y, y.Held s → (v.kind = .tns → ¬ s.Contains ref y) →
      t.equal levels v y = s.equal levels v y ∧ t.equal levels y v = s.equal levels y v

/-- **A change to one tensor does not show** in a value that does not contain it. -/
theorem readsSame_of_others (hs : s.Sound D)
    (ht : ∀ r < s.tensors.size, r ≠ ref → t.tensor r = s.tensor r) (hv : v.Held s)
    (hnot : ¬ s.Contains ref v) : s.ReadsSame ref t v := by
  have hsame {y : Value} (hy : y.Held s) (hn : ¬ s.Contains ref y) :
      ∀ r, s.Contains r y → t.tensor r = s.tensor r := by
    intro r hr
    refine ht r (hr.lt hs (fun _ _ => rfl) hy) ?_
    rintro rfl
    exact hn hr
  refine fun levels => ⟨text_of_contains levels (hsame hv hnot), fun y hy hn => ?_⟩
  by_cases hkind : v.kind = .tns
  · exact ⟨equal_of_contains levels (hsame hv hnot) (hsame hy (hn hkind)),
      equal_of_contains levels (hsame hy (hn hkind)) (hsame hv hnot)⟩
  · exact equal_of_kind hkind levels y

end SpanScript.Store
