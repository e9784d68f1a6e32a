import SpanScript.Session
import SpanScript.Proofs.Eval.Safety

/-!
# Reachable sessions

A session is reached by running statements one after another, whichever they are and
however they end, by taking out what they have printed, and by closing it.  The store of
a reachable session is sound and no call is running in it, since both hold at the start
and every statement leaves them so.

* `Session.Reachable`, `Session.GoesOn`: the sessions that can come about, and those that
  one can come to by statements.
* `Session.after_lands`, `Session.runBy_guarded`: one statement, without guards and with
  them.
* `Session.Reachable.sound`, `Session.GoesOn.extends`: any number of statements.
-/

namespace SpanScript

variable {D : Prop} {s t : Store}

namespace Store

/-! ## Stores between statements -/

/-- The store in which one more statement is run. -/
def counted (s : Store) : Store := { s with executed := s.executed + 1 }

/-- The store with what has been printed taken out. -/
def flushed (s : Store) : Store := { s with printed := "" }

theorem Sound.of_empty (hs : s.scopes = #[[]]) (ht : s.tensors = #[]) (hf : s.functions = [])
    (hc : s.calls = []) : s.Sound D := by
  have hscope (id : Nat) : s.scope id = [] := by
    rw [scope, hs]
    rcases id with _ | id <;> rfl
  have htensor (ref : TensorRef) : s.tensor ref = .ofCells [0] #[] := by
    rw [tensor, ht]
    rfl
  refine ⟨?_, fun id b hb => ?_, fun ref => ?_, fun ref v hv => ?_, ?_, ?_, ?_⟩
  · rw [hs]
    exact Nat.one_pos
  · rw [hscope id] at hb
    cases hb
  · rw [htensor ref]
    exact Tensor.filled_ofCells rfl
  · rw [htensor ref] at hv
    exact absurd hv (Array.not_mem_empty v)
  all_goals simp only [hf, hc, List.not_mem_nil, false_implies, implies_true]

theorem sound_initial : Store.initial.Sound D := .of_empty rfl rfl rfl rfl

theorem sound_close (s : Store) : s.close.Sound D := .of_empty rfl rfl rfl rfl

theorem Sound.counted (h : s.Sound D) : s.counted.Sound D :=
  ⟨h.scopes, h.values, h.filled, h.cells, h.closures, h.admits, h.calls⟩

theorem Extends.counted (s : Store) : s.Extends D s.counted :=
  ⟨Nat.le_refl _, fun _ => .refl s, .refl s, fun _ h => h, rfl⟩

theorem Sound.flushed (h : s.Sound D) : s.flushed.Sound D :=
  ⟨h.scopes, h.values, h.filled, h.cells, h.closures, h.admits, h.calls⟩

theorem Extends.flushed (s : Store) : s.Extends D s.flushed :=
  ⟨Nat.le_refl _, fun _ => .refl s, .refl s, fun _ h => h, rfl⟩

/-- What is sound with deletions is sound without them, if no function deletes. -/
theorem Sound.of_calls_none (h : s.Sound True)
    (hf : ∀ f ∈ s.functions, ¬ f.2.Calls Builtin.del.name) : s.Sound False :=
  ⟨h.scopes, h.values, h.filled, h.cells, h.closures, hf, h.calls⟩

end Store

namespace Session

/-! ## The sessions that can come about -/

/-- `runStatement`, with the machine left open. -/
def runBy (m : Machine) (store : Store) (stmt : Stmt) : Except Failure Unit × Store :=
  if store.closed then (.error (.fault .closed stmt.location), store)
  else
    match (m.exec Store.globalChain stmt).run.run store.counted with
    | (.ok c, store) => (ofCompletion stmt.location c, store)
    | (.error h, store) => (.error (.ofHalt stmt.location h), store)

theorem runBy_machine (limits : Limits) (store : Store) (stmt : Stmt) :
    runBy (machine limits.turns limits.levels) store stmt = runStatement limits store stmt := rfl

/-- The session after a statement, however it ended. -/
def after (s : Session) (stmt : Stmt) : Session :=
  { s with store := (runStatement s.limits s.store stmt).2 }

def flush (s : Session) : Session := { s with store := s.store.flushed }

/-- A session comes to another one by statements. -/
inductive GoesOn (s : Session) : Session → Prop
  | refl : GoesOn s s
  | after {t : Session} (stmt : Stmt) : GoesOn s t → GoesOn s (t.after stmt)
  | flush {t : Session} : GoesOn s t → GoesOn s t.flush

/-- A session that comes about when statements are run in a new one, which may be closed
between them. -/
inductive Reachable : Session → Prop
  | new (file : String) (limits : Limits) : Reachable ⟨file, limits, .initial⟩
  | after {s : Session} (stmt : Stmt) : Reachable s → Reachable (s.after stmt)
  | flush {s : Session} : Reachable s → Reachable s.flush
  | close {s : Session} : Reachable s → Reachable s.close

theorem reachable_start (file : String) : (start file).Reachable := .new file .standard

theorem Reachable.goesOn {s t : Session} (h : s.Reachable) (ht : s.GoesOn t) : t.Reachable := by
  induction ht with
  | refl => exact h
  | after stmt _ ih => exact ih.after stmt
  | flush _ ih => exact ih.flush

/-- A statement that is read from a text is run, or cannot be parsed and changes nothing. -/
theorem perform_session (s : Session) (text : PlacedText) (offset : Nat) :
    (∃ f, parse s.limits text offset = .error f ∧ (s.perform text offset).2 = s) ∨
      ∃ stmt stop, parse s.limits text offset = .ok (stmt, stop) ∧
        (s.perform text offset).2 = s.after stmt := by
  unfold perform after
  cases parse s.limits text offset with
  | error f => exact .inl ⟨f, rfl, rfl⟩
  | ok x =>
    obtain ⟨stmt, stop⟩ := x
    refine .inr ⟨stmt, stop, rfl, ?_⟩
    dsimp only
    rcases runStatement s.limits s.store stmt with ⟨_ | _, _⟩ <;> rfl

theorem Reachable.perform {s : Session} (h : s.Reachable) (text : PlacedText) (offset : Nat) :
    (s.perform text offset).2.Reachable := by
  rcases s.perform_session text offset with ⟨_, -, hs⟩ | ⟨stmt, _, -, hs⟩
  · rw [hs]
    exact h
  · rw [hs]
    exact h.after stmt

/-! ## One statement -/

section

variable {s : Session} {stmt : Stmt}

/-- A statement that is executed lands, and passes every guard that asks for what sound
stores keep. -/
theorem exec_does (hs : s.store.Sound D) (ha : stmt.Admits D) {p : Store → Store → Prop}
    [DecidableRel p] (hp : ∀ s t, s.Sound D → t.Sound D → s.Extends D t → p s t) (h : Halt) :
    Run.Does D s.store.counted Completion.Fits
      ((machine s.limits.turns s.limits.levels).exec Store.globalChain stmt)
      ((guardedMachine p h s.limits.turns s.limits.levels).exec Store.globalChain stmt)
      s.store.counted := by
  have hchain : Chain.Held s.store.counted Store.globalChain :=
    ⟨List.cons_ne_nil _ _, fun id hid => List.mem_singleton.mp hid ▸ hs.scopes⟩
  exact exec_keeps hs.counted hchain hp h s.limits.turns s.limits.levels ha

theorem exec_lands (hs : s.store.Sound D) (ha : stmt.Admits D) :
    Run.Lands D s.store.counted Completion.Fits
      (((machine s.limits.turns s.limits.levels).exec Store.globalChain stmt).run.run
        s.store.counted) :=
  (exec_does hs ha (p := fun _ _ => True) (fun _ _ _ _ _ => trivial) .unfinished).lands

/-- **A statement leaves a sound store** that extends the one before it. -/
theorem after_lands (hs : s.store.Sound D) (ha : stmt.Admits D) :
    s.store.Extends D (s.after stmt).store ∧ (s.after stmt).store.Sound D := by
  have hl := exec_lands hs ha
  rw [after, ← runBy_machine, runBy]
  split
  · exact ⟨.refl _, hs⟩
  · generalize ((machine s.limits.turns s.limits.levels).exec Store.globalChain stmt).run.run
      s.store.counted = x at hl
    rcases x with ⟨_ | c, t⟩ <;> exact ⟨(Store.Extends.counted _).trans hl.later, hl.sound⟩

/-- **A statement passes every guard** that asks for what sound stores keep. -/
theorem runBy_guarded (hs : s.store.Sound D) (ha : stmt.Admits D) {p : Store → Store → Prop}
    [DecidableRel p] (hp : ∀ s t, s.Sound D → t.Sound D → s.Extends D t → p s t) (h : Halt) :
    runBy (guardedMachine p h s.limits.turns s.limits.levels) s.store stmt
      = runStatement s.limits s.store stmt := by
  rw [← runBy_machine, runBy, runBy, (exec_does hs ha hp h).same]

end

/-! ## Any number of statements -/

/-- **The store of a reachable session is sound**, and no call is running. -/
theorem Reachable.sound {s : Session} (h : s.Reachable) :
    s.store.Sound True ∧ s.store.calls = [] := by
  induction h with
  | new file limits => exact ⟨Store.sound_initial, rfl⟩
  | after stmt _ ih =>
    obtain ⟨he, hs⟩ := after_lands ih.1 (stmt.admits_true)
    exact ⟨hs, he.calls.trans ih.2⟩
  | flush _ ih => exact ⟨ih.1.flushed, ih.2⟩
  | close _ _ => exact ⟨Store.sound_close _, rfl⟩

theorem GoesOn.extends {s t : Session} (ht : s.GoesOn t) (h : s.Reachable) :
    s.store.Extends True t.store := by
  induction ht with
  | refl => exact .refl _
  | after stmt hst ih =>
    exact ih.trans (after_lands (h.goesOn hst).sound.1 (stmt.admits_true)).1
  | flush _ ih => exact ih.trans (.flushed _)

end Session

end SpanScript
