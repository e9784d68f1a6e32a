import SpanScript.Eval.Rules
import SpanScript.Proofs.Eval.Steps

/-!
# Reading and writing cells, step by step

An index is read, and a cell is assigned to, in steps: what stands before the brackets is
evaluated, then the indices from left to right, then they are looked up as the number of a
cell.  An assignment goes on with its value, looks at what the cell holds by then, and puts
the value there, and it gives an answer exactly if all its steps do.

* `eval_name`, `eval_name_of_ok`, `eval_literal_of_ok`: names and literals.
* `run_cellNumber`, `exists_of_cellNumber`: the number of a cell.
* `run_readIndex`: what a cell holds.
* `Assigns`, `writeIndex_eq_ok_iff`: an assignment to a cell.
-/

namespace SpanScript

open Run

/-! ## Names and literals -/

section

variable {turns levels : Nat} {chain : Chain} {place : Location} {x : String} {v : Value}
  {s t : Store}

/-- What a name stands for is found in the store. -/
theorem eval_name (h : s.get? chain x = some v) :
    ((machine turns (levels + 1)).eval chain (.name place x)).run.run s = (.ok v, s) := by
  rw [eval_machine, Machine.evalRule, run_get, h]
  rfl

theorem eval_name_of_ok
    (h : ((machine turns levels).eval chain (.name place x)).run.run s = (.ok v, t)) :
    s.get? chain x = some v ∧ t = s := by
  cases levels with
  | zero => cases h
  | succ levels =>
    rw [eval_machine, Machine.evalRule, run_get] at h
    cases hx : s.get? chain x with
    | none =>
      rw [hx] at h
      cases h
    | some w =>
      rw [hx] at h
      cases h
      exact ⟨rfl, rfl⟩

/-- Where anything has been evaluated there are levels for a literal. -/
theorem eval_literal_of_ok {e : Expr} (he : ((machine turns levels).eval chain e).run.run s
    = (.ok v, t)) (place : Location) (l : Literal) (u : Store) :
    ((machine turns levels).eval chain (.literal place l)).run.run u
      = (.ok (Machine.literal l), u) := by
  cases levels with
  | zero => cases he
  | succ levels => rfl

end

namespace Machine

variable {m : Machine} {chain : Chain} {loc : Location} {rule : String} {ref : TensorRef}
  {indices : List Expr} {offset : Nat} {s t u w : Store} {v old : Value} {ns : List Int}

theorem run_cellNumber (h : ((m.under Weight.index).integers chain loc rule indices).run.run s
    = (.ok ns, t)) :
    (m.cellNumber chain loc rule ref indices).run.run s = match (t.tensor ref).offset ns with
      | .ok n => (.ok n, t)
      | .error p => (.error (.fault (.index p) loc), t) := by
  rw [cellNumber, run_bind, h]
  dsimp only
  rw [run_get]
  cases (t.tensor ref).offset ns <;> rfl

theorem exists_of_cellNumber
    (h : (m.cellNumber chain loc rule ref indices).run.run s = (.ok offset, t)) :
    ∃ ns, ((m.under Weight.index).integers chain loc rule indices).run.run s = (.ok ns, t) ∧
      (t.tensor ref).offset ns = .ok offset := by
  obtain ⟨ns, u, hns, hrest⟩ := run_bind_eq_ok h
  rw [run_get] at hrest
  cases hoffset : (u.tensor ref).offset ns with
  | error p =>
    rw [hoffset] at hrest
    cases hrest
  | ok n =>
    rw [hoffset] at hrest
    cases hrest
    exact ⟨ns, hns, hoffset⟩

theorem run_readCell (h : (s.tensor ref).cells[offset]? = some v) :
    (readCell ref offset).run.run s = (.ok v, s) := by
  rw [readCell, run_get, h]
  rfl

theorem exists_of_readCell (h : (readCell ref offset).run.run s = (.ok v, t)) :
    (s.tensor ref).cells[offset]? = some v ∧ t = s := by
  rw [readCell, run_get] at h
  cases hcell : (s.tensor ref).cells[offset]? with
  | none =>
    rw [hcell] at h
    cases h
  | some w =>
    rw [hcell] at h
    cases h
    exact ⟨rfl, rfl⟩

/-! ## Reading -/

theorem run_readIndex {e : Expr} (hbase : (m.eval chain e.indexChain.1).run.run s
    = (.ok (.tns ref), t)) (hnumber : (m.cellNumber chain loc "INDEX" ref e.indexChain.2).run.run t
    = (.ok offset, u)) (hcell : (u.tensor ref).cells[offset]? = some v) :
    (m.readIndex chain loc e).run.run s = (.ok v, u) := by
  rw [readIndex, run_bind, hbase]
  show (m.cellNumber chain loc "INDEX" ref e.indexChain.2 >>= readCell ref).run.run t = _
  rw [run_bind, hnumber]
  exact run_readCell hcell

/-! ## Writing -/

/-- The steps of an assignment to a cell: what the target names is a tensor, the indices lead
to a cell of it, and the value is of the kind that the cell has once it has been evaluated.  The
store is the one in which the value is then put into the cell. -/
inductive Assigns (m : Machine) (chain : Chain) (loc : Location) (target value : Expr)
    (s : Store) : TensorRef → Nat → Value → Store → Prop
  | intro {place : Location} {x : String} {ref : TensorRef} {offset : Nat} {v old : Value}
      {t u w : Store} : target.indexChain.1 = .name place x →
    (m.eval chain (.name place x)).run.run s = (.ok (.tns ref), t) →
    (m.cellNumber chain loc "ASSIGN" ref target.indexChain.2).run.run t = (.ok offset, u) →
    (m.eval chain value).run.run u = (.ok v, w) →
    (w.tensor ref).cells[offset]? = some old → old.kind = v.kind →
    Assigns m chain loc target value s ref offset v w

variable {target value : Expr}

/-- What is assigned to is the tensor that the name before the brackets stands for. -/
theorem Assigns.named {turns levels : Nat} {place : Location} {x : String}
    (h : (machine turns levels).Assigns chain loc target value s ref offset v w)
    (hname : target.indexChain.1 = .name place x) : s.get? chain x = some (.tns ref) := by
  cases h with
  | intro hname' hbase _ _ _ _ =>
    rw [hname] at hname'
    cases hname'
    exact (eval_name_of_ok hbase).1

theorem writeIndex_of_name {place : Location} {x : String}
    (h : target.indexChain.1 = .name place x) :
    m.writeIndex chain loc target value = (do
      match ← m.eval chain (.name place x) with
      | .tns ref =>
        let offset ← m.cellNumber chain loc "ASSIGN" ref target.indexChain.2
        let v ← m.eval chain value
        let old ← readCell ref offset
        if old.kind ≠ v.kind then Run.fail .cellMismatch loc
        else modify fun s => s.setCell ref offset v
      | _ => Run.fail .cellOfNonTensor loc) := by
  unfold writeIndex
  rcases hchain : target.indexChain with ⟨base, indices⟩
  rw [hchain] at h
  subst h
  rfl

theorem Assigns.run_eq (h : m.Assigns chain loc target value s ref offset v w) :
    (m.writeIndex chain loc target value).run.run s = (.ok (), w.setCell ref offset v) := by
  cases h with
  | intro hname hbase hnumber hvalue hcell hkind =>
    rw [writeIndex_of_name hname, run_bind, hbase]
    dsimp only
    rw [run_bind, hnumber]
    dsimp only
    rw [run_bind, hvalue]
    dsimp only
    rw [run_bind, run_readCell hcell]
    dsimp only
    rw [if_neg (not_not_intro hkind)]
    rfl

theorem exists_of_writeIndex (h : (m.writeIndex chain loc target value).run.run s = (.ok (), t)) :
    ∃ ref offset v w, m.Assigns chain loc target value s ref offset v w ∧
      t = w.setCell ref offset v := by
  cases hname : target.indexChain.1 with
  | name place x =>
    rw [writeIndex_of_name hname] at h
    obtain ⟨base, s₁, hbase, h₁⟩ := run_bind_eq_ok h
    cases base with
    | tns ref =>
      obtain ⟨offset, s₂, hnumber, h₂⟩ := run_bind_eq_ok h₁
      obtain ⟨v, s₃, hvalue, h₃⟩ := run_bind_eq_ok h₂
      obtain ⟨old, s₄, hread, h₄⟩ := run_bind_eq_ok h₃
      obtain ⟨hcell, hsame⟩ := exists_of_readCell hread
      subst hsame
      by_cases hkind : old.kind = v.kind
      · rw [if_neg (not_not_intro hkind)] at h₄
        cases h₄
        exact ⟨ref, offset, v, s₄, .intro hname hbase hnumber hvalue hcell hkind, rfl⟩
      · rw [if_pos hkind] at h₄
        cases h₄
    | _ => cases h₁
  | _ =>
    unfold writeIndex at h
    rcases hchain : target.indexChain with ⟨base, indices⟩
    rw [hchain] at h hname
    subst hname
    cases h

/-- **An assignment to a cell succeeds** exactly by its steps. -/
theorem writeIndex_eq_ok_iff :
    (m.writeIndex chain loc target value).run.run s = (.ok (), t) ↔
      ∃ ref offset v w, m.Assigns chain loc target value s ref offset v w ∧
        t = w.setCell ref offset v := by
  refine ⟨exists_of_writeIndex, ?_⟩
  rintro ⟨ref, offset, v, w, h, rfl⟩
  exact h.run_eq

end Machine

end SpanScript
