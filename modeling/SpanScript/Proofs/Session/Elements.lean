import SpanScript.Proofs.Eval.Indexing
import SpanScript.Proofs.Session.Touched

/-!
# What an assignment to a cell leaves

An assignment to a cell looks up its tensor and its cell before it evaluates the value.  What the
evaluation does to the name of the tensor, to assign to it, delete it or declare it anew, does not
change where the value is put; and no evaluation changes the shape of a tensor, so the indices lead
to the same cell afterwards.  If the name stands for the same tensor once the value has been
evaluated, then to read it with the same indices gives the value.

* `Assigns.of_points`: assigning to a name with integers in brackets.
* `cell_assignments_kept`: assignments to cells.
* `cell_assignment_renamed`: a value that makes the name stand for another tensor.
-/

namespace SpanScript

open Run

/-! ## Looking up -/

namespace Machine

variable {turns levels : Nat} {chain : Chain} {loc : Location} {s w : Store} {ns : List Int}
  {x : String} {e value : Expr} {ref : TensorRef} {offset : Nat} {v : Value}

/-- The steps of an assignment to a name with integers in brackets. -/
theorem Assigns.of_points (h : e.Points x ns)
    (ha : (machine turns levels).Assigns chain loc e value s ref offset v w) :
    s.get? chain x = some (.tns ref) ∧ (s.tensor ref).offset ns = .ok offset ∧
      ((machine turns levels).eval chain value).run.run s = (.ok v, w) ∧
      ∃ old, (w.tensor ref).cells[offset]? = some old ∧ old.kind = v.kind := by
  obtain ⟨place, hname⟩ := h.name
  cases ha with
  | intro hname' hbase hnumber hvalue hcell hkind =>
    rw [hname] at hname'
    cases hname'
    obtain ⟨hx, rfl⟩ := eval_name_of_ok hbase
    obtain ⟨ns', hns, hoffset⟩ := exists_of_cellNumber hnumber
    rw [under_machine] at hns
    obtain ⟨rfl, rfl⟩ := run_integers_of_ok h.integers hns
    exact ⟨hx, hoffset, hvalue, _, hcell, hkind⟩

end Machine

/-! ## Afterwards -/

/-- Tensors of the same form have the same numbers for their cells. -/
theorem Tensor.SameForm.offset {t u : Tensor} (h : t.SameForm u) (indices : List Int) :
    u.offset indices = t.offset indices := by
  unfold Tensor.offset
  rw [h.shape, h.strides]

/-- A cell that is inside holds what was put into it. -/
theorem Store.cells_setCell {s : Store} {ref : TensorRef} {offset : Nat}
    (h : offset < (s.tensor ref).cells.size) (v : Value) :
    ((s.setCell ref offset v).tensor ref).cells[offset]? = some v := by
  rw [tensor_setCell, if_pos rfl]
  exact Array.getElem?_setIfInBounds_self_of_lt h

namespace Session

open Classical in
/-- **What is assigned to a cell is kept.**

In a session that can come about, and wherever any of its statements evaluates, executes or calls
anything, the store is sound.  In such a store, on any chain of its scopes, let a value be assigned
to a cell of a name with integers for its indices, and let this succeed.  The name stood for a
tensor and the integers for a cell of it; whatever the value has done, it is that cell that then
holds it, and the integers still lead there.  If the name stands for that tensor once the value has
been evaluated, then to read it with these integers, in any brackets, gives the value and changes
nothing, given the levels that it takes to read. -/
theorem cell_assignments_kept {session : Session} (hs : session.Reachable) :
    (session.store.Sound True ∧ session.Passes fun t u => t.Sound True ∧ u.Sound True) ∧
    ∀ s : Store, s.Sound True → ∀ chain, Chain.Held s chain →
      ∀ turns levels loc x ns target value c t, target.Points x ns →
      ((machine turns (levels + 1)).exec chain (.assignCell loc target value)).run.run s
        = (.ok c, t) →
      ∃ ref offset v w, s.get? chain x = some (.tns ref) ∧ (s.tensor ref).offset ns = .ok offset ∧
        (((machine turns levels).under Machine.Weight.operand).eval chain value).run.run s
          = (.ok v, w) ∧
        t = w.setCell ref offset v ∧ (t.tensor ref).offset ns = .ok offset ∧
        (t.tensor ref).cells[offset]? = some v ∧
        (w.get? chain x = some (.tns ref) → ∀ e, e.Points x ns → ∀ turns levels,
          Machine.Weight.index + 1 < levels →
          ((machine turns levels).eval chain e).run.run t = (.ok v, t)) := by
  have hsound := hs.sound.1
  refine ⟨⟨hsound, passes_of_sound hsound fun _ _ ht hu => ⟨ht, hu⟩⟩, ?_⟩
  intro s hs chain hc turns levels loc x ns target value c t htarget h
  rw [exec_machine, Machine.execRule] at h
  obtain ⟨_, u, hwrite, hpure⟩ := run_bind_eq_ok h
  cases hpure
  rw [under_machine] at hwrite
  obtain ⟨ref, offset, v, w, hassigns, rfl⟩ := Machine.writeIndex_eq_ok_iff.mp hwrite
  obtain ⟨hx, hoffset, hvalue, old, hold, hkind⟩ := hassigns.of_points htarget
  rw [← under_machine] at hvalue
  -- the value keeps the form of the tensor, and so does putting it into the cell
  have hform := ((extends_of_eval hs hc hvalue).tensors.2 ref (hs.get? hx)).trans
    (w.sameForm_setCell ref ref hold hkind)
  have hnumber : ((w.setCell ref offset v).tensor ref).offset ns = .ok offset :=
    (hform.offset ns).trans hoffset
  have hcell := Store.cells_setCell (Array.getElem?_eq_some_iff.mp hold).1 v
  refine ⟨ref, offset, v, w, hx, hoffset, hvalue, rfl, hnumber, hcell, ?_⟩
  intro hname e he turns levels hl
  exact (readsAs_ok hnumber hcell).points he hname rfl hl

/-- After `TNS: t = [1, 2]` the assignment `t[-1] = ADD(t[1], 4)` succeeds, and `t[-1]` is `5`. -/
theorem cell_assignments_kept_sum :
    let integer (n : Int) : Expr := .literal ⟨1, 1⟩ (.int n)
    let declare : Stmt := .assign ⟨1, 1⟩ "t" (.tensor ⟨1, 10⟩ [integer 1, integer 2]) (some "TNS")
    let cell (n : Int) : Expr := .index ⟨2, 1⟩ (.name ⟨2, 1⟩ "t") [integer n]
    let sum : Expr := .call ⟨2, 8⟩ "ADD" [.positional (cell 1), .positional (integer 4)]
    let s := (Session.after ⟨"t", ⟨9, 30, 9⟩, .initial⟩ declare).store
    let r := ((machine 9 30).exec Store.globalChain (.assignCell ⟨2, 1⟩ (cell (-1)) sum)).run.run s
    r.1 = .ok .normal ∧
      ((machine 9 29).eval Store.globalChain (cell (-1))).run.run r.2 = (.ok (.int 5), r.2) := by
  intro integer declare cell sum s r
  have hreach : (Session.after ⟨"t", ⟨9, 30, 9⟩, .initial⟩ declare).Reachable :=
    .after declare (.new "t" ⟨9, 30, 9⟩)
  obtain ⟨⟨hs, -⟩, hall⟩ := cell_assignments_kept hreach
  have hc : Chain.Held s Store.globalChain :=
    ⟨List.cons_ne_nil _ _, fun id hid => List.mem_singleton.mp hid ▸ hs.scopes⟩
  have hpoints : (cell (-1)).Points "t" [-1] :=
    ⟨⟨_, _, _, rfl⟩, ⟨_, rfl⟩, .cons ⟨_, rfl⟩ .nil⟩
  have hnormal : r.1 = .ok .normal := rfl
  have hkept := hall s hs _ hc 9 29 ⟨2, 1⟩ "t" [-1] (cell (-1)) sum .normal r.2 hpoints
    (Prod.ext hnormal rfl)
  obtain ⟨ref, offset, v, w, hx, -, hvalue, -, -, -, hread⟩ := hkept
  have hsum : (((machine 9 29).under Machine.Weight.operand).eval Store.globalChain sum).run.run s
      = (.ok (.int 5), s) := rfl
  rw [hsum] at hvalue
  cases hvalue
  exact ⟨hnormal, hread hx (cell (-1)) hpoints 9 29 (by decide)⟩

/-- After `TNS: t = [1, 2]` and `FUNC f(): INT { t = [7, 8]; RETURN(5) }` the assignment
`t[1] = f()` succeeds and its value is `5`, but then `t` stands for another tensor, and `t[1]` is
`7`. -/
theorem cell_assignment_renamed :
    let integer (n : Int) : Expr := .literal ⟨1, 1⟩ (.int n)
    let pair (m n : Int) : Expr := .tensor ⟨1, 10⟩ [integer m, integer n]
    let declare : Stmt := .assign ⟨1, 1⟩ "t" (pair 1 2) (some "TNS")
    let rename : Stmt := .assign ⟨2, 17⟩ "t" (pair 7 8) none
    let define : Stmt := .define ⟨2, 1⟩ "f" [] "INT"
      (.mk ⟨2, 15⟩ [rename, .returnValue ⟨2, 29⟩ (some (integer 5))])
    let cell : Expr := .index ⟨3, 2⟩ (.name ⟨3, 1⟩ "t") [integer 1]
    let call : Expr := .call ⟨3, 8⟩ "f" []
    let session := Session.after (Session.after ⟨"t", ⟨9, 30, 9⟩, .initial⟩ declare) define
    let m := machine 9 29
    session.Reachable ∧ ∃ t w,
      ((machine 9 30).exec Store.globalChain (.assignCell ⟨3, 6⟩ cell call)).run.run session.store
        = (.ok .normal, t) ∧
      ((m.under Machine.Weight.operand).eval Store.globalChain call).run.run session.store
        = (.ok (.int 5), w) ∧
      (m.eval Store.globalChain cell).run.run t = (.ok (.int 7), t) :=
  ⟨.after _ (.after _ (.new "t" ⟨9, 30, 9⟩)), _, _, rfl, rfl, rfl⟩

end Session

end SpanScript
