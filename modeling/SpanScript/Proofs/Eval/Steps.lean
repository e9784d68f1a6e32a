import SpanScript.Run

/-!
# The steps of runs

What a run of several steps does to a store, by what each step does.

* `run_bind`: one run after another; `run_bind_eq_ok`: where its answer comes from.
* `run_tryCatch`: a run with something to do when it halts.
* `run_assign_ok`, `run_assign_error`: an assignment, by where the name is bound.
-/

namespace SpanScript.Run

variable {α β : Type}

theorem run_bind (m : Run α) (k : α → Run β) (s : Store) :
    (m >>= k).run.run s = match m.run.run s with
      | (.ok a, t) => (k a).run.run t
      | (.error h, t) => (.error h, t) := by
  show (ExceptT.bind m k).run.run s = _
  simp only [ExceptT.bind, ExceptT.run, ExceptT.mk, StateT.run]
  show (match m s with | (a, t) => ExceptT.bindCont k a t) = _
  rcases m s with ⟨_ | a, t⟩ <;> rfl

/-- What follows a run sees no more of it than how it ends and what it leaves. -/
theorem run_bind_congr {m m' : Run α} {s t : Store} (h : m.run.run s = m'.run.run t)
    (k : α → Run β) : (m >>= k).run.run s = (m' >>= k).run.run t := by
  rw [run_bind, run_bind, h]

/-- A run of two steps that gives an answer has come through the first one. -/
theorem run_bind_eq_ok {m : Run α} {k : α → Run β} {s t : Store} {b : β}
    (h : (m >>= k).run.run s = (.ok b, t)) :
    ∃ a u, m.run.run s = (.ok a, u) ∧ (k a).run.run u = (.ok b, t) := by
  rw [run_bind] at h
  rcases hm : m.run.run s with ⟨x | a, u⟩
  · rw [hm] at h
    cases h
  · rw [hm] at h
    exact ⟨a, u, rfl, h⟩

theorem run_tryCatch (m : Run α) (k : Halt → Run α) (s : Store) :
    (tryCatch m k).run.run s = match m.run.run s with
      | (.ok a, t) => (.ok a, t)
      | (.error x, t) => (k x).run.run t := by
  show StateT.run (ExceptT.run (ExceptT.tryCatch m k)) s = _
  rw [ExceptT.tryCatch, ExceptT.run_mk, StateT.run_bind]
  change (m.run.run s >>= _ : Id _) = _
  rcases m.run.run s with ⟨_ | a, t⟩ <;> rfl

theorem run_get (k : Store → Run α) (s : Store) :
    (get >>= k).run.run s = (k s).run.run s := rfl

/-! ## Assignments -/

variable {s : Store} {chain : Chain} {x : String} {v : Value} {declared : Option TypeName}

theorem run_assign_ok {id : Nat} (h : s.assignScope chain x v declared = .ok id)
    (loc : Location) : (assign loc chain x v declared).run.run s = (.ok (), s.put id x v) := by
  rw [assign, run_get, h]
  rfl

theorem run_assign_error {cause : Fault} (h : s.assignScope chain x v declared = .error cause)
    (loc : Location) :
    (assign loc chain x v declared).run.run s = (.error (.fault cause loc), s) := by
  rw [assign, run_get, h]
  rfl

end SpanScript.Run
