import SpanScript.Proofs.Session.Touched
import SpanScript.Proofs.Value.Equality

/-!
# Equality is a congruence

Of plain values, equality is an equivalence, and equal values are told apart by none of the ways in
which a program can look at them: their kinds, their truth, their texts, `SHAPE` and `TLEN`, and
what indices lead to.  Values that are not equal differ in their kind, in their shape or in a
leaf.

* `Store.Indistinct`: what is the same of two values, and `indistinct_of_congruent`.
* `run_eq_of_plain`: what `EQ` answers.
* `Session.equality_congruent`: all of it, for the stores that there are.
-/

namespace SpanScript

namespace Store

variable {s : Store} {a b : Value}

/-- Two values are told apart neither by their kinds, their truth and their texts, nor by `SHAPE`
and `TLEN`, nor by what any indices lead to: in both to equal cells, or in both to nothing. -/
structure Indistinct (s : Store) (a b : Value) : Prop where
  kind : a.kind = b.kind
  truth : ∀ levels, s.truth levels a = s.truth levels b
  text : ∀ levels, s.text levels a = s.text levels b
  shape : ∀ levels loc, (Builtin.apply levels loc .shape [a]).run.run s
    = (Builtin.apply levels loc .shape [b]).run.run s
  length : ∀ levels loc (axis : Option Value),
    (Builtin.apply levels loc .tlen (a :: axis.toList)).run.run s
      = (Builtin.apply levels loc .tlen (b :: axis.toList)).run.run s
  cells : ∀ p q, a = .tns p → b = .tns q → ∀ indices,
    (s.tensor p).offset indices = (s.tensor q).offset indices ∧
      ∀ n, (s.tensor p).offset indices = .ok n →
        ∃ v ∈ (s.tensor p).cells[n]?, ∃ w ∈ (s.tensor q).cells[n]?, s.Equals v w

/-- A new tensor of the dimensions of a tensor depends on these alone. -/
theorem run_shape_congr {p q : TensorRef} (h : (s.tensor p).shape = (s.tensor q).shape)
    (levels : Nat) (loc : Location) :
    (Builtin.apply levels loc .shape [.tns p]).run.run s
      = (Builtin.apply levels loc .shape [.tns q]).run.run s := by
  show (Run.newTensor (.row ((s.tensor p).shape.map fun n : Nat => Value.int n))).run.run s
    = (Run.newTensor (.row ((s.tensor q).shape.map fun n : Nat => Value.int n))).run.run s
  rw [h]

/-- The length along a dimension depends on the dimensions alone. -/
theorem run_lengthAlong_congr {p q : TensorRef} (h : (s.tensor p).shape = (s.tensor q).shape)
    (loc : Location) (axis : Option Value) :
    (Builtin.lengthAlong loc (.tns p) axis).run.run s
      = (Builtin.lengthAlong loc (.tns q) axis).run.run s := by
  -- the axis is the same in both, or the same fault
  have hget (n : Int) :
      (do
        let s ← get
        let shape := (s.tensor p).shape
        if 1 ≤ n ∧ n ≤ shape.length then pure (.int (shape[(n - 1).toNat]?.getD 0))
        else Run.fail .noSuchDimension loc : Run Value).run.run s
      = (do
        let s ← get
        let shape := (s.tensor q).shape
        if 1 ≤ n ∧ n ≤ shape.length then pure (.int (shape[(n - 1).toNat]?.getD 0))
        else Run.fail .noSuchDimension loc : Run Value).run.run s := by
    rw [Run.run_get, Run.run_get, h]
  cases axis with
  | none => exact hget 1
  | some v =>
    cases v with
    | int n => exact hget n
    | _ => rfl

theorem run_tlen_congr {p q : TensorRef} (h : (s.tensor p).shape = (s.tensor q).shape)
    (levels : Nat) (loc : Location) (axis : Option Value) :
    (Builtin.apply levels loc .tlen (.tns p :: axis.toList)).run.run s
      = (Builtin.apply levels loc .tlen (.tns q :: axis.toList)).run.run s := by
  cases axis with
  | none => exact run_lengthAlong_congr h loc none
  | some v => exact run_lengthAlong_congr h loc (some v)

theorem indistinct_of_congruent (hs : ∀ ref, (s.tensor ref).Filled) (ha : s.Plain a)
    (h : s.Congruent a b) : s.Indistinct a b where
  kind := h.kind
  truth := h.truth
  text := h.text
  shape levels loc := by
    cases h with
    | tensor hshape _ _ => exact run_shape_congr hshape levels loc
    | _ => rfl
  length levels loc axis := by
    cases h with
    | tensor hshape _ _ => exact run_tlen_congr hshape levels loc axis
    | _ => rfl
  cells p q hp hq indices := by
    subst hp hq
    obtain ⟨hsame, hcells⟩ := h.offset hs indices
    refine ⟨hsame, fun n hn => ?_⟩
    obtain ⟨v, hv, w, hw, hcongruent⟩ := hcells n hn
    have hplain : s.Plain v := ha.cell (Array.mem_of_getElem? hv)
    exact ⟨v, hv, w, hw, (equals_iff_congruent hs hplain).mpr hcongruent⟩

open Classical in
/-- What `EQ` answers with more levels than there are tensors. -/
theorem run_eq_of_plain (hs : ∀ ref, (s.tensor ref).Filled) (ha : s.Plain a) (b : Value)
    {levels : Nat} (hlevels : s.tensors.size < levels) (loc : Location) :
    (Builtin.apply levels loc .eq [a, b]).run.run s
      = (.ok (.ofBool (decide (s.Equals a b))), s) := by
  have hequal : s.equal levels a b = .ok (decide (s.Equals a b)) := by
    rcases equal_of_plain hs ha b levels with ⟨-, hfew⟩ | hanswer
    · omega
    · exact hanswer
  show (Run.equal levels a b >>= fun same => pure (.ofBool same) : Run Value).run.run s = _
  rw [Run.equal, Run.ofStore, bind_assoc, Run.run_get, hequal]
  rfl

end Store

namespace Session

open Classical in
/-- **Equality is a congruence.**

In a session that can come about, and wherever any of its statements evaluates, executes or calls
anything, the store is sound.  In such a store equality is reflexive, symmetric and transitive on
the values that are plain.  Comparing a plain value to any other gives the same answer however deep
one may look, unless that is not deep enough; with more levels than there are tensors it is, and
`EQ` gives this answer.  Equal values are told apart by nothing, and plain values that are not equal
are just those that differ in their kind, their shape or a leaf. -/
theorem equality_congruent {session : Session} (hsession : session.Reachable) :
    (session.store.Sound True ∧ session.Passes fun t u => t.Sound True ∧ u.Sound True) ∧
    ∀ s : Store, s.Sound True →
      (Equivalence fun a b : {v // s.Plain v} => s.Equals a b) ∧
      ∀ a, s.Plain a → ∀ b,
        (∀ levels, (s.equal levels a b = .error .tooDeep ∧ levels ≤ s.tensors.size) ∨
          s.equal levels a b = .ok (decide (s.Equals a b))) ∧
        (∀ levels loc, s.tensors.size < levels →
          (Builtin.apply levels loc .eq [a, b]).run.run s
            = (.ok (.ofBool (decide (s.Equals a b))), s)) ∧
        (s.Equals a b → s.Indistinct a b) ∧
        (¬ s.Equals a b ↔ s.Differ a b) := by
  have hsound := hsession.sound.1
  refine ⟨⟨hsound, passes_of_sound hsound fun _ _ ht hu => ⟨ht, hu⟩⟩, fun s hs => ⟨?_, ?_⟩⟩
  · have hcongruent (a b : {v // s.Plain v}) : s.Equals a b ↔ s.Congruent a b :=
      Store.equals_iff_congruent hs.filled a.2
    refine ⟨fun a => ?_, fun {a b} hab => ?_, fun {a b c} hab hbc => ?_⟩
    · exact (hcongruent a a).mpr (.refl a.2)
    · exact (hcongruent b a).mpr ((hcongruent a b).mp hab).symm
    · exact (hcongruent a c).mpr (((hcongruent a b).mp hab).trans ((hcongruent b c).mp hbc))
  · intro a ha b
    have hcongruent : s.Equals a b ↔ s.Congruent a b := Store.equals_iff_congruent hs.filled ha
    refine ⟨Store.equal_of_plain hs.filled ha b, fun levels loc hlevels => ?_, fun h => ?_, ?_⟩
    · exact Store.run_eq_of_plain hs.filled ha b hlevels loc
    · exact Store.indistinct_of_congruent hs.filled ha (hcongruent.mp h)
    · rw [hcongruent, Store.differ_iff_not_congruent hs.filled ha]

/-- After `TNS: t = [1, "a"]`, `TNS: u = [1, "a"]` and `TNS: v = [1, "b"]` the first two tensors are
equal and have one text, and the first and the last differ. -/
theorem equality_congruent_rows :
    let integer (n : Int) : Expr := .literal ⟨1, 1⟩ (.int n)
    let text (t : String) : Expr := .literal ⟨1, 1⟩ (.str t)
    let bind (x t : String) : Stmt :=
      .assign ⟨1, 1⟩ x (.tensor ⟨1, 1⟩ [integer 1, text t]) (some "TNS")
    let session := [bind "t" "a", bind "u" "a", bind "v" "b"].foldl after (start "t")
    let s := session.store
    (s.Equals (.tns 0) (.tns 1) ∧ ∀ levels, s.text levels (.tns 0) = s.text levels (.tns 1)) ∧
      s.Differ (.tns 0) (.tns 2) := by
  intro integer text bind session s
  have hreach : session.Reachable := reachable_foldl_after (reachable_start "t") _
  obtain ⟨⟨hs, -⟩, hall⟩ := equality_congruent hreach
  have hplain : s.Plain (.tns 0) := Store.plain_of_kinds (by decide +kernel)
  obtain ⟨-, -, hsame, -⟩ := (hall s hs).2 (.tns 0) hplain (.tns 1)
  obtain ⟨hanswer, -, -, hdiffer⟩ := (hall s hs).2 (.tns 0) hplain (.tns 2)
  have hequals : s.Equals (.tns 0) (.tns 1) := ⟨2, by decide +kernel⟩
  refine ⟨⟨hequals, (hsame hequals).text⟩, hdiffer.mp fun hequals' => ?_⟩
  have hno : s.equal 2 (.tns 0) (.tns 2) = .ok false := by decide +kernel
  rcases hanswer 2 with ⟨hdeep, -⟩ | hyes
  · rw [hno] at hdeep
    cases hdeep
  · simp [hno, hequals'] at hyes

end Session

end SpanScript
