import Mathlib
import SpanScript.Proofs.Session.Located
import SpanScript.Proofs.Syntax.WellFormed

/-!
# Sessions of statements that are read

A run looks at the nodes of the statements that are run, and at those of the functions
that earlier ones have defined.  If all of them have been read from texts, all these nodes
are in order, and so the run never comes to the one fault that is for trees which no text
stands for: an assignment to a cell of what is no name.

* `Stmt.FromText`: a statement that is read from some text.
* `namedBase_of_material`: the targets that a run comes to.
* `trees_wellFormed`: what is read is well formed, and runs without that fault.
-/

namespace SpanScript

/-- A statement is read from some text, with some names as those of types. -/
def Stmt.FromText (stmt : Stmt) : Prop :=
  ∃ types nesting c s, Reader.next types nesting (.start c) = (.ok stmt, s)

theorem Stmt.FromText.exists_wellFormed {stmt : Stmt} (h : stmt.FromText) :
    ∃ types source, stmt.WellFormed types source := by
  obtain ⟨types, nesting, c, s, h⟩ := h
  obtain ⟨ν, τ, -, -, hwf⟩ := Reader.wellFormed_of_next h
  exact ⟨types, τ, hwf⟩

theorem Stmt.FromText.namedBase {stmt : Stmt} (h : stmt.FromText) {loc : Location}
    {target value : Expr} (hn : stmt.Node (.assignCell loc target value)) : target.NamedBase := by
  obtain ⟨types, source, hwf⟩ := h.exists_wellFormed
  have hcell : target.NamesCell := (hwf.stmt _ hn).orderly
  exact hcell.namedBase

namespace Session

variable {s : Session} {ran : List Stmt}

/-- Every assignment to a cell that a run can come to has a name before the brackets. -/
theorem namedBase_of_material {stmt : Stmt} (h : ∀ d ∈ stmt :: ran, d.FromText) {loc : Location}
    {target value : Expr} (hs : (s.material ran stmt).stmt (.assignCell loc target value)) :
    target.NamedBase := by
  obtain ⟨d, hd, hnode⟩ := hs
  rcases hd with rfl | ⟨⟨stmt', hstmt', hd⟩, -⟩
  · exact (h _ (List.mem_cons_self ..)).namedBase hnode
  · exact (h _ (List.mem_cons_of_mem _ hstmt')).namedBase (hd.trans hnode)

/-- **Trees that are read are well formed.**  Whatever the text and the names of types, all
nodes of a statement that is read are in order: a cell is assigned to by a name with brackets
behind it; a choice has a branch; the types that are declared are among the names of types; a
literal is of the kind of its token, and has the value that the token writes; no name is a
reserved word; parameters without a default do not follow one with a default, and arguments
given by position do not follow one given by name; and each node and each block is at the place
of a token that the statement was read from.

The trees have no other nodes than those that can be run.  And no statement that is read, run
after any others that were read, ends in the fault for a cell of what is no name. -/
theorem trees_wellFormed :
    (∀ types nesting c stmt r, Reader.next types nesting (.start c) = (.ok stmt, r) →
      ∃ ν τ, Reader.IsNewlines ν ∧ c.Reads (ν ++ τ) r.cursor ∧ stmt.WellFormed types τ) ∧
    ∀ (s : Session) ran stmt, s.Ran ran → (∀ d ∈ stmt :: ran, d.FromText) →
      ∀ loc, (runStatement s.limits s.store stmt).1 ≠ .error (.fault .cellOfExpression loc) := by
  refine ⟨fun types nesting c stmt r h => Reader.wellFormed_of_next h, ?_⟩
  intro s ran stmt hran htext loc hfault
  obtain ⟨hsound, hcalls⟩ := hran.reachable.sound
  have hwithin := within_material hcalls hsound.scopes hran.defined stmt
  obtain ⟨-, hblames⟩ := runStatement_within s.limits hwithin ⟨stmt, .inl rfl, .self⟩
  obtain ⟨loc', target, value, hs, hbase⟩ := (hblames _ loc hfault).target rfl
  exact hbase (namedBase_of_material htext hs)

/-- An assignment to a cell, read from a text and run in a new session: it is in order at every
node, and it fails for another reason. -/
theorem trees_wellFormed_cell :
    let c : Cursor := .ofText [116, 91, 49, 93, 61, 50] 0 6 ⟨1, 1⟩
    ∃ stmt r ν τ, Reader.next ["INT"] 8 (.start c) = (.ok stmt, r) ∧
      Reader.IsNewlines ν ∧ c.Reads (ν ++ τ) r.cursor ∧ stmt.WellFormed ["INT"] τ ∧
      (runStatement .standard .initial stmt).1 = .error (.fault (.undefined "t") ⟨1, 1⟩) ∧
      ∀ loc, (runStatement .standard .initial stmt).1
        ≠ .error (.fault .cellOfExpression loc) := by
  intro c
  have hnext : Reader.next ["INT"] 8 (.start c) =
      (.ok (.assignCell ⟨1, 5⟩ (.index ⟨1, 2⟩ (.name ⟨1, 1⟩ "t") [.literal ⟨1, 3⟩ (.int 1)])
        (.literal ⟨1, 6⟩ (.int 2))), ⟨⟨[], 6, ⟨1, 7⟩⟩, true, 6, 7⟩) := by cbv
  obtain ⟨ν, τ, hν, hr, hwf⟩ := trees_wellFormed.1 _ _ _ _ _ hnext
  have htext : ∀ d ∈ [_], Stmt.FromText d :=
    List.forall_mem_singleton.mpr ⟨_, _, _, _, hnext⟩
  exact ⟨_, _, ν, τ, hnext, hν, hr, hwf, rfl,
    trees_wellFormed.2 (start "t") [] _ (.new "t" .standard) htext⟩

end Session

end SpanScript
