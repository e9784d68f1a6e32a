import SpanScript.Proofs.Session.Contained

/-!
# What sessions keep

Variables keep their kinds as long as nothing is deleted, and tensors keep their form
whatever is done.  Both hold from one statement to the next, and inside a statement
around each expression, each statement and each call: the guarded machine runs every
statement as the machine without guards does, whatever it would halt with.

* `Session.variables_keep_kinds`: variables and their kinds.
* `Session.tensors_keep_form`: tensors have the cells of their shape, and keep the shape
  and the kinds of the cells; indices lead to cells.
-/

namespace SpanScript

namespace Store

def AllFilled (s : Store) : Prop := ∀ ref < s.tensors.size, (s.tensor ref).Filled

instance : DecidablePred AllFilled := fun s =>
  inferInstanceAs (Decidable (∀ ref < s.tensors.size, (s.tensor ref).Filled))

/-- Every tensor is filled before and after, and is still held in the form it had. -/
def KeepsFilled (s t : Store) : Prop := s.AllFilled ∧ t.AllFilled ∧ s.KeepsTensors t

instance : DecidableRel KeepsFilled := fun s t =>
  inferInstanceAs (Decidable (s.AllFilled ∧ t.AllFilled ∧ s.KeepsTensors t))

end Store

namespace Session

/-- **Variables keep their kinds.**  When neither a statement nor any function of a
reachable session calls `DEL`, every variable of the session is bound after the
statement, however that ends, and to a value of the kind it had; and whenever the
statement evaluates, executes or calls anything, the same holds of every variable of
every scope that there was before. -/
theorem variables_keep_kinds {s : Session} (hs : s.Reachable) {stmt : Stmt}
    (hstmt : ¬ stmt.Calls Builtin.del.name)
    (hfunctions : ∀ f ∈ s.store.functions, ¬ f.2.Calls Builtin.del.name) :
    (∀ text offset stop, parse s.limits text offset = .ok (stmt, stop) →
      (s.perform text offset).2 = s.after stmt) ∧
    (∀ x v, s.store.globals.lookup x = some v →
      ∃ w, (s.after stmt).store.globals.lookup x = some w ∧ w.kind = v.kind) ∧
    ∀ h, runBy (guardedMachine Store.KeepsKinds h s.limits.turns s.limits.levels) s.store stmt
      = runStatement s.limits s.store stmt := by
  have hsound : s.store.Sound False := hs.sound.1.of_calls_none hfunctions
  refine ⟨fun text offset stop hp => ?_, ?_, fun h => ?_⟩
  · rcases s.perform_session text offset with ⟨f, hf, -⟩ | ⟨stmt', stop', hp', he⟩
    · rw [hp] at hf
      cases hf
    · rw [hp] at hp'
      cases hp'
      exact he
  · exact (after_lands hsound hstmt).1.kinds not_false 0 hsound.scopes
  · exact runBy_guarded hsound hstmt (fun _ _ _ _ he => he.kinds not_false) h

/-- A function that assigns to a variable of the session leaves its kind. -/
theorem variables_keep_kinds_call :
    let declare : Stmt := .assign ⟨1, 1⟩ "x" (.literal ⟨1, 8⟩ (.int 1)) (some "INT")
    let define : Stmt := .define ⟨1, 1⟩ "F" [⟨"INT", "a", none⟩] "INT" (.mk ⟨1, 18⟩
      [.assign ⟨1, 20⟩ "x" (.name ⟨1, 24⟩ "a") none,
        .returnValue ⟨1, 26⟩ (some (.name ⟨1, 33⟩ "a"))])
    let stmt : Stmt := .evaluate (.call ⟨1, 1⟩ "F" [.positional (.literal ⟨1, 3⟩ (.int 2))])
    let s := ((start "t").after declare).after define
    s.Reachable ∧ ¬ stmt.Calls Builtin.del.name ∧
      (∀ f ∈ s.store.functions, ¬ f.2.Calls Builtin.del.name) ∧
      (s.store.globals.lookup "x").map Value.kind = some .int ∧
      ((s.after stmt).store.globals.lookup "x").map Value.kind = some .int := by
  intro declare define stmt s
  have hs : s.Reachable := .after define (.after declare (reachable_start "t"))
  have hliteral (loc : Location) (v : Literal) : ¬ (Expr.literal loc v).Calls Builtin.del.name :=
    Expr.not_calls nofun nofun
  have hname (loc : Location) (x : String) : ¬ (Expr.name loc x).Calls Builtin.del.name :=
    Expr.not_calls nofun nofun
  have hdeclare : ¬ declare.Calls Builtin.del.name :=
    Stmt.not_calls (by simp [declare, Stmt.exprs, hliteral]) nofun
  have hdefine : ¬ define.Calls Builtin.del.name := by
    refine Stmt.not_calls (by simp [define, Stmt.exprs]) fun st hst => Stmt.not_calls ?_ ?_ <;>
      rcases List.mem_cons.mp hst with rfl | hst <;> try rcases List.mem_singleton.mp hst with rfl
    all_goals simp [Stmt.exprs, Stmt.parts, hname]
  have hstmt : ¬ stmt.Calls Builtin.del.name := by
    refine Stmt.not_calls (fun e he => ?_) nofun
    rw [List.mem_singleton.mp he]
    refine Expr.not_calls (fun loc args h => ?_) (by simp [Expr.parts, Argument.value, hliteral])
    injection h with _ h
    exact absurd h (by decide)
  have hfunctions : ∀ f ∈ s.store.functions, ¬ f.2.Calls Builtin.del.name := by
    have h₁ := (after_lands (D := False) (s := start "t") Store.sound_initial hdeclare).2
    exact (after_lands h₁ hdefine).2.admits
  have hx : (s.store.globals.lookup "x").map Value.kind = some .int := by decide +kernel
  refine ⟨hs, hstmt, hfunctions, hx, ?_⟩
  obtain ⟨v, hv, hk⟩ := Option.map_eq_some_iff.mp hx
  obtain ⟨w, hw, hkind⟩ := (variables_keep_kinds hs hstmt hfunctions).2.1 "x" v hv
  rw [hw, Option.map_some, hkind, hk]

/-- A deletion does not pass the guards. -/
example :
    let declare : Stmt := .assign ⟨1, 1⟩ "x" (.literal ⟨1, 8⟩ (.int 1)) (some "INT")
    let delete : Stmt := .evaluate (.call ⟨1, 1⟩ "DEL" [.positional (.name ⟨1, 5⟩ "x")])
    let s := (start "t").after declare
    (runStatement s.limits s.store delete).1.isOk = true ∧
      (runBy (guardedMachine Store.KeepsKinds .unfinished s.limits.turns s.limits.levels) s.store
        delete).1.isOk = false := by
  decide +kernel

/-- **Tensors keep their form.**  In a reachable session every tensor has exactly the cells
of its shape, so that only a dimension of no length leaves it without any, and its strides
are those of row-major order.  Statements change neither the shape nor the strides of a
tensor nor the kind of a cell, and the same holds whenever a statement evaluates, executes
or calls anything.  An offset of a filled tensor is the index of a cell, and no statement
fails to find a cell. -/
theorem tensors_keep_form {s : Session} (hs : s.Reachable) :
    (∀ ref < s.store.tensors.size,
      let t := s.store.tensor ref
      t.cells.size = Tensor.volume t.shape ∧ (t.cells = #[] → 0 ∈ t.shape) ∧
        t.strides = Tensor.rowMajor t.shape) ∧
    (∀ later, s.GoesOn later → s.store.KeepsTensors later.store) ∧
    (∀ stmt h, runBy (guardedMachine Store.KeepsFilled h s.limits.turns s.limits.levels) s.store
      stmt = runStatement s.limits s.store stmt) ∧
    (∀ t : Tensor, t.Filled → ∀ indices n, t.offset indices = .ok n → n < t.cells.size) ∧
    ∀ stmt n, (runStatement s.limits s.store stmt).1 ≠ .error (.escaped (.absent (.cell n))) := by
  obtain ⟨hsound, hcalls⟩ := hs.sound
  refine ⟨fun ref _ => ?_, fun later hl => (hl.extends hs).tensors, fun stmt h => ?_,
    fun t ht indices n => ht.offset_lt, fun stmt n => ?_⟩
  · have hf := hsound.filled ref
    exact ⟨hf.size, hf.zero_mem, hf.strides⟩
  · refine runBy_guarded hsound stmt.admits_true (fun _ _ hs ht he => ?_) h
    exact ⟨fun ref _ => hs.filled ref, fun ref _ => ht.filled ref, he.tensors⟩
  · rcases runStatement_ends hsound hcalls stmt with ⟨-, hr⟩ | ⟨-, hr⟩
    · rw [hr]
      nofun
    · rcases hr.cases with h | ⟨_, _, h⟩ | h <;> rw [h] <;> nofun

/-- A tensor with two rows of two cells. -/
theorem tensors_keep_form_rows :
    let row (a b : Int) : Expr := .tensor ⟨1, 1⟩ [.literal ⟨1, 2⟩ (.int a), .literal ⟨1, 4⟩ (.int b)]
    let s := (start "t").after
      (.assign ⟨1, 1⟩ "x" (.tensor ⟨1, 9⟩ [row 1 2, row 3 4]) (some "TNS"))
    s.Reachable ∧ s.store.tensors.size = 1 ∧ (s.store.tensor 0).shape = [2, 2] ∧
      (s.store.tensor 0).cells.size = 4 ∧ (s.store.tensor 0).strides = [2, 1] := by
  intro row s
  have hs : s.Reachable := .after _ (reachable_start "t")
  have hsize : s.store.tensors.size = 1 := by decide +kernel
  have hshape : (s.store.tensor 0).shape = [2, 2] := by decide +kernel
  obtain ⟨hcells, -, hstrides⟩ := (tensors_keep_form hs).1 0 (hsize ▸ Nat.one_pos)
  rw [hshape] at hcells hstrides
  exact ⟨hs, hsize, hshape, hcells, hstrides⟩

end Session

end SpanScript
