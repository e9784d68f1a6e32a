import SpanScript.Template.Boundary
import SpanScript.Proofs.Eval.Relocate
import SpanScript.Proofs.Syntax.Places

/-!
# Sessions do not look at places

A statement may stand at another offset of another text, and the functions that are
defined may have been read at other places: a session prints the same, binds the same
and ends the statement the same way.

* `runStatement_relocate`: running a statement with its places moved.
* `perform_shifted`: reading a statement at another offset and running it.
* `execute_shifted`: the same, as a render asks for it.
-/

namespace SpanScript

/-- Two stores differ in nothing but the places in their functions. -/
def Store.Alike (s t : Store) : Prop := s.relocate Location.forget = t.relocate Location.forget

namespace Store.Alike

variable {s t : Store}

/-- What is made of a store without its places is the same. -/
theorem congr {α : Type} (p : Store → α) (hp : ∀ s f, p (Store.relocate f s) = p s)
    (h : Store.Alike s t) : p s = p t := by
  rw [← hp s Location.forget, ← hp t Location.forget, h]

theorem scopes (h : Store.Alike s t) : s.scopes = t.scopes := h.congr _ fun _ _ => rfl

theorem tensors (h : Store.Alike s t) : s.tensors = t.tensors := h.congr _ fun _ _ => rfl

theorem printed (h : Store.Alike s t) : s.printed = t.printed := h.congr _ fun _ _ => rfl

/-- The functions have the same names, in the same order. -/
theorem names (h : Store.Alike s t) :
    s.functions.map Prod.fst = t.functions.map Prod.fst :=
  h.congr (fun s => s.functions.map Prod.fst) fun s f => by
    simp only [Store.relocate, List.map_map, Function.comp_def]

end Store.Alike

structure Session.Alike (s t : Session) : Prop where
  file : s.file = t.file
  limits : s.limits = t.limits
  store : Store.Alike s.store t.store

/-- How a statement ends that stands `k` bytes further on: it ends or fails as many
bytes further on, maybe with another message, or it escapes or is not followed to its
end in the same way. -/
inductive Outcome.Shifted (k : Nat) : Outcome → Outcome → Prop
  | ended {stop : Int} : Shifted k (.ended stop) (.ended (stop + k))
  | failed {message message' : String} {offset : Int} :
      Shifted k (.failed message offset) (.failed message' (offset + k))
  | escaped {message : String} : Shifted k (.escaped message) (.escaped message)
  | unfinished : Shifted k .unfinished .unfinished

namespace Session

def Failure.relocate (f : Location → Location) : Failure → Failure
  | .fault cause loc => .fault cause (f loc)
  | .escaped what => .escaped what
  | .unfinished => .unfinished

section

variable (f : Location → Location)

theorem Failure.ofHalt_relocate (loc : Location) (h : Halt) :
    Failure.ofHalt (f loc) (h.relocate f) = (Failure.ofHalt loc h).relocate f := by
  cases h <;> rfl

theorem ofCompletion_relocate (loc : Location) (c : Completion) :
    ofCompletion (f loc) c = (ofCompletion loc c).mapError (Failure.relocate f) := by
  cases c with
  | breaking n =>
    unfold ofCompletion
    dsimp only
    cases integerText n <;> rfl
  | _ => rfl

/-- **Running a statement does not look at places.** -/
theorem runStatement_relocate (limits : Limits) (store : Store) (stmt : Stmt) :
    runStatement limits (store.relocate f) (stmt.relocate f)
      = ((runStatement limits store stmt).1.mapError (Failure.relocate f),
        (runStatement limits store stmt).2.relocate f) := by
  unfold runStatement
  rw [Stmt.location_relocate]
  by_cases hc : store.closed = true
  · have hc' : (store.relocate f).closed = true := hc
    rw [if_pos hc, if_pos hc']
    rfl
  · have hc' : ¬ (store.relocate f).closed = true := hc
    rw [if_neg hc, if_neg hc']
    have hrun : ((machine limits.turns limits.levels).exec Store.globalChain
          (stmt.relocate f)).run.run
          { store.relocate f with executed := (store.relocate f).executed + 1 } = _ :=
      machine_relocates f limits.turns limits.levels Store.globalChain stmt
        { store with executed := store.executed + 1 }
    simp only [hrun]
    unfold Machine.exec
    rcases ((machine limits.turns limits.levels).execUnder 0 Store.globalChain stmt).run.run
      { store with executed := store.executed + 1 } with ⟨h | c, t⟩
    · exact congrArg (fun x => (Except.error x, t.relocate f)) (Failure.ofHalt_relocate f _ h)
    · exact congrArg (·, t.relocate f) (ofCompletion_relocate f _ c)

end

/-- A statement that differs in its places, on a store that does, ends in the same
way. -/
theorem runStatement_alike (limits : Limits) {s t : Store} {a b : Stmt} (hs : Store.Alike s t)
    (h : a.relocate Location.forget = b.relocate Location.forget) :
    Store.Alike (runStatement limits s a).2 (runStatement limits t b).2 ∧
      (runStatement limits s a).1.mapError (Failure.relocate Location.forget)
        = (runStatement limits t b).1.mapError (Failure.relocate Location.forget) := by
  have ha := runStatement_relocate Location.forget limits s a
  rw [hs, h, runStatement_relocate Location.forget limits t b] at ha
  obtain ⟨h1, h2⟩ := Prod.mk.inj ha
  exact ⟨h2.symm, h1.symm⟩

theorem ofFailure_shifted (file : String) (offset k : Nat) {x y : Failure}
    (h : x.relocate Location.forget = y.relocate Location.forget) :
    Outcome.Shifted k (ofFailure file offset x) (ofFailure file (offset + k) y) := by
  cases x <;> cases y <;> try cases h
  · exact .failed
  · exact .escaped
  · exact .unfinished

theorem ofParseFault_shifted (file : String) (offset k : Nat) {x y : ParseFault}
    (h : x.relocate Location.forget = y.relocate Location.forget) :
    Outcome.Shifted k (ofParseFault file offset x) (ofParseFault file (offset + k) y) := by
  cases x <;> cases y <;> try cases h
  · exact .failed
  · exact .failed
  · exact .escaped

/-- What is parsed is the next statement of the text at the offset. -/
theorem parse_eq_ok {limits : Limits} {text : PlacedText} {offset stop : Nat} {stmt : Stmt} :
    parse limits text offset = .ok (stmt, stop) ↔
      ∃ s, Reader.next Kind.names limits.nesting
          (.start (.ofText text.text offset text.text.length (text.locate offset))) = (.ok stmt, s) ∧
        s.endOffset = stop := by
  unfold parse
  dsimp only
  generalize Reader.next Kind.names limits.nesting _ = x
  obtain ⟨_ | a, r⟩ := x
  · exact ⟨nofun, nofun⟩
  · simp

theorem parse_eq_error {limits : Limits} {text : PlacedText} {offset : Nat} {f : ParseFault} :
    parse limits text offset = .error f ↔
      ∃ s, Reader.next Kind.names limits.nesting
        (.start (.ofText text.text offset text.text.length (text.locate offset)))
          = (.error f, s) := by
  unfold parse
  dsimp only
  generalize Reader.next Kind.names limits.nesting _ = x
  obtain ⟨_ | a, r⟩ := x
  · simp
  · exact ⟨nofun, nofun⟩

theorem exists_of_map_parse {limits : Limits} {text : PlacedText} {offset stop : Nat}
    (h : (parse limits text offset).map Prod.snd = .ok stop) :
    ∃ stmt, parse limits text offset = .ok (stmt, stop) := by
  cases hp : parse limits text offset with
  | error f =>
    rw [hp] at h
    cases h
  | ok x =>
    rw [hp] at h
    obtain rfl : x.2 = stop := Except.ok.inj h
    exact ⟨x.1, rfl⟩

theorem error_of_map_parse {limits : Limits} {text : PlacedText} {offset : Nat} {f : ParseFault}
    (h : (parse limits text offset).map Prod.snd = .error f) :
    parse limits text offset = .error f := by
  cases hp : parse limits text offset with
  | error g =>
    rw [hp] at h
    cases h
    rfl
  | ok x =>
    rw [hp] at h
    cases h

/-- The cursors of a text that stands at two offsets. -/
theorem shifted_ofText {text text' : PlacedText} {offset k : Nat}
    (h : text'.text.drop (offset + k) = text.text.drop offset) :
    Reader.Shifted k (.ofText text.text offset text.text.length (text.locate offset))
      (.ofText text'.text (offset + k) text'.text.length (text'.locate (offset + k))) := by
  refine ⟨?_, rfl⟩
  unfold Cursor.ofText
  rw [Bytes.window_length, Bytes.window_length, h]

/-- **A statement that stands at another offset** does the same, and ends or fails
there. -/
theorem perform_shifted {s t : Session} (hs : Session.Alike s t) {text text' : PlacedText}
    {offset k : Nat} (h : text'.text.drop (offset + k) = text.text.drop offset) :
    Outcome.Shifted k (s.perform text offset).1 (t.perform text' (offset + k)).1 ∧
      Session.Alike (s.perform text offset).2 (t.perform text' (offset + k)).2 := by
  obtain ⟨file, limits, store⟩ := s
  obtain ⟨file', limits', store'⟩ := t
  obtain ⟨rfl, rfl, hstore⟩ := hs
  unfold perform parse
  rcases Reader.next_shifted Kind.names limits.nesting (shifted_ofText h) with
    ⟨a, r, b, r', ha, hb, hab, hend⟩ | ⟨x, r, y, r', hx, hy, hxy⟩
  · simp only [ha, hb]
    obtain ⟨h2, h1⟩ := runStatement_alike limits hstore hab
    rcases hp : runStatement limits store a with ⟨x | _, s'⟩ <;>
      rcases hq : runStatement limits store' b with ⟨y | _, t'⟩ <;> rw [hp, hq] at h1 h2
    · exact ⟨ofFailure_shifted file offset k (Except.error.inj h1), rfl, rfl, h2⟩
    · cases h1
    · cases h1
    · refine ⟨?_, rfl, rfl, h2⟩
      rw [hend]
      exact .ended
  · simp only [hx, hy]
    exact ⟨ofParseFault_shifted file offset k hxy, rfl, rfl, hstore⟩

end Session

/-- **A render asks a session for a statement**, and the answer does not depend on
where the statement stands. -/
theorem execute_shifted {s t : Session} (hs : Session.Alike s t) {text text' : PlacedText}
    {offset k : Nat} (h : text'.text.drop (offset + k) = text.text.drop offset) :
    Outcome.Shifted k (Boundary.session.execute s text offset).outcome
        (Boundary.session.execute t text' (offset + k)).outcome ∧
      (Boundary.session.execute s text offset).written
        = (Boundary.session.execute t text' (offset + k)).written ∧
      Session.Alike (Boundary.session.execute s text offset).environment
        (Boundary.session.execute t text' (offset + k)).environment := by
  obtain ⟨h1, h2⟩ := Session.perform_shifted hs h
  simp only [Boundary.session]
  generalize s.perform text offset = x at h1 h2 ⊢
  generalize t.perform text' (offset + k) = y at h1 h2 ⊢
  refine ⟨h1, congrArg (fun text => [text]) h2.store.printed, h2.file, h2.limits, ?_⟩
  exact congrArg (fun s : Store => { s with printed := "" }) h2.store

end SpanScript
