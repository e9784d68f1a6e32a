import SpanScript.Value.Form

/-!
# Readings of values

The text of a value, its truth and its equality to another look at the tensors of a
store and at nothing else in it.  A reading that does not answer went too deep or came
to an integer too long to be printed; no place is told.

* `Store.text_congr`, `Store.truth_congr`, `Store.equal_congr`: only tensors count.
* `Store.settles_text`, `Store.settles_truth`, `Store.settles_equal`: how readings end.
-/

namespace SpanScript

variable {α β : Type}

/-- A reading answers, or it halts for one of the two reasons that readings have. -/
def Settles (x : Except Halt α) : Prop :=
  (∃ a, x = .ok a) ∨ x = .error .tooDeep ∨ x = .error .printTooLong

theorem settles_ok (a : α) : Settles (.ok a : Except Halt α) := .inl ⟨a, rfl⟩

theorem Settles.bind {x : Except Halt α} {k : α → Except Halt β} (h : Settles x)
    (h' : ∀ a, Settles (k a)) : Settles (x >>= k) := by
  rcases h with ⟨a, rfl⟩ | rfl | rfl
  · exact h' a
  · exact .inr (.inl rfl)
  · exact .inr (.inr rfl)

theorem Settles.mapM {k : α → Except Halt β} (h : ∀ a, Settles (k a)) :
    ∀ xs : List α, Settles (xs.mapM k) := by
  intro xs
  induction xs with
  | nil => exact settles_ok _
  | cons x xs ih =>
    rw [List.mapM_cons]
    exact (h x).bind fun a => ih.bind fun as => settles_ok _

theorem settles_integerText (n : Int) : Settles (integerText n) := by
  unfold integerText
  split
  · exact .inr (.inr rfl)
  · exact settles_ok _

namespace Store

variable {s t : Store}

/-! ## Text -/

theorem text_int (s : Store) (levels : Nat) (n : Int) :
    s.text levels (.int n) = integerText n := by
  cases levels <;> exact Eq.refl (integerText n)

theorem text_tns (s : Store) (levels : Nat) (ref : TensorRef) :
    s.text (levels + 1) (.tns ref) = (do
      let cells ← (s.tensor ref).cells.toList.mapM (s.text levels)
      pure ("[" ++ ", ".intercalate cells ++ "]")) := rfl

theorem tensor_congr (h : s.tensors = t.tensors) (ref : TensorRef) :
    s.tensor ref = t.tensor ref := by
  rw [tensor, tensor, h]

theorem text_congr (h : s.tensors = t.tensors) : ∀ (levels : Nat) (v : Value),
    s.text levels v = t.text levels v := by
  intro levels
  induction levels with
  | zero =>
    intro v
    cases v with
    | int n => rw [text_int, text_int]
    | _ => rfl
  | succ levels ih =>
    intro v
    cases v with
    | int n => rw [text_int, text_int]
    | tns ref => rw [text_tns, text_tns, tensor_congr h, funext ih]
    | _ => rfl

theorem settles_text (s : Store) : ∀ (levels : Nat) (v : Value), Settles (s.text levels v) := by
  intro levels
  induction levels with
  | zero =>
    intro v
    cases v with
    | int n => rw [text_int]; exact settles_integerText n
    | tns ref => exact .inr (.inl rfl)
    | _ => exact settles_ok _
  | succ levels ih =>
    intro v
    cases v with
    | int n => rw [text_int]; exact settles_integerText n
    | tns ref => exact (Settles.mapM ih _).bind fun _ => settles_ok _
    | _ => exact settles_ok _

/-! ## Truth -/

theorem truth_congr (h : s.tensors = t.tensors) : ∀ (levels : Nat) (v : Value),
    s.truth levels v = t.truth levels v := by
  intro levels
  induction levels with
  | zero => intro v; cases v <;> rfl
  | succ levels ih =>
    intro v
    cases v with
    | tns ref => rw [truth, truth, tensor_congr h, funext ih]
    | _ => rfl

theorem settles_anyOf {test : Value → Except Halt Bool} (h : ∀ v, Settles (test v)) :
    ∀ vs, Settles (anyOf test vs) := by
  intro vs
  induction vs with
  | nil => exact settles_ok _
  | cons v vs ih =>
    refine (h v).bind fun b => ?_
    cases b
    · exact ih
    · exact settles_ok _

theorem settles_truth (s : Store) : ∀ (levels : Nat) (v : Value), Settles (s.truth levels v) := by
  intro levels
  induction levels with
  | zero =>
    intro v
    cases v with
    | tns ref => exact .inr (.inl rfl)
    | _ => exact settles_ok _
  | succ levels ih =>
    intro v
    cases v with
    | tns ref => exact settles_anyOf ih _
    | _ => exact settles_ok _

/-! ## Equality -/

theorem equal_congr (h : s.tensors = t.tensors) : ∀ (levels : Nat) (a b : Value),
    s.equal levels a b = t.equal levels a b := by
  intro levels
  induction levels with
  | zero => intro a b; cases a <;> cases b <;> rfl
  | succ levels ih =>
    intro a b
    cases a <;> cases b
    case tns.tns a b =>
      rw [equal, equal, tensor_congr h, tensor_congr h, funext fun v => funext (ih v)]
    all_goals rfl

theorem settles_allEqual {test : Value → Value → Except Halt Bool}
    (h : ∀ a b, Settles (test a b)) : ∀ as bs, Settles (allEqual test as bs) := by
  intro as
  induction as with
  | nil => exact fun _ => settles_ok _
  | cons a as ih =>
    intro bs
    cases bs with
    | nil => exact settles_ok _
    | cons b bs =>
      refine (h a b).bind fun c => ?_
      cases c
      · exact settles_ok _
      · exact ih bs

theorem settles_equal (s : Store) : ∀ (levels : Nat) (a b : Value),
    Settles (s.equal levels a b) := by
  intro levels
  induction levels with
  | zero =>
    intro a b
    cases a <;> cases b
    case tns.tns a b => exact .inr (.inl rfl)
    all_goals exact settles_ok _
  | succ levels ih =>
    intro a b
    cases a <;> cases b
    case tns.tns a b =>
      rw [equal]
      split
      · exact settles_allEqual ih _ _
      · exact settles_ok _
    all_goals exact settles_ok _

end Store

end SpanScript
