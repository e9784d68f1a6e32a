import SpanScript.Proofs.Syntax.Next
import SpanScript.Proofs.Syntax.Joining

/-!
# The language of statements

The statements that `Reader.next` reads are those of the grammar, no fewer and no
more.  A statement of the grammar is refused for one of two reasons only: it nests
deeper than levels allow, or one of its numbers has more digits than may be read.

* `next_sound`: the tokens that are taken, newlines apart, derive the statement.
* `next_complete`: tokens that derive a statement are taken.
* `next_exact`: both together.
-/

namespace SpanScript.Reader

open Grammar

variable {types : List TypeName} {nesting : Nat} {s : ReadState} {stmt : Stmt} {c d : Cursor}
  {τ ν : List Token}

/-- The reason that a number with too many digits gives. -/
def Overlong (t : Token) (f : ParseFault) : Prop :=
  t.kind = .number ∧ ¬ FitsDigits t.text ∧ f = .literalTooLong (digitCount t.text)

theorem fits_or_overlong {t : Token} (hk : t.kind = .number) :
    FitsDigits t.text ∨ Overlong t (.literalTooLong (digitCount t.text)) :=
  (em _).imp_right fun h => ⟨hk, h, rfl⟩

/-- **The tokens that are taken derive the statement.** -/
theorem next_sound (h : next types nesting (.start c) = (.ok stmt, s)) :
    ∃ ν τ, IsNewlines ν ∧ c.Reads (ν ++ τ) s.cursor ∧ s.endOffset = s.cursor.offset ∧
      IsStmt types Joins τ stmt := by
  have hm : ReadsStmt (fun _ _ => True) (statement types nesting 0) (IsStmt types Joins) :=
    statement_reads (fun _ => trivial) (fun _ _ => trivial) nesting 0
  obtain ⟨ν, τ, hν, hS, hc, -⟩ := gives_oneStatement hm (ready_start _) h
  obtain ⟨t, σ, rfl, -⟩ := hm.shape _ _ hS
  exact ⟨ν, _, hν, hc.reads, hc.endOffset (by simp), hS⟩

/-- Tokens nest too deeply if they derive no statement within so many levels.  They are then
at least half as many as the levels. -/
def TooDeep (types : List TypeName) (nesting : Nat) (τ : List Token) : Prop :=
  (∀ stmt, ¬ StmtWithin types (fun _ => True) nesting 0 τ stmt) ∧ nesting < 2 * τ.length + 1

/-- **Tokens that derive a statement are taken**, if they do not nest too deeply and
no number among them has too many digits. -/
theorem next_complete (nesting : Nat) (hν : IsNewlines ν) (hr : c.Reads (ν ++ τ) d)
    (hS : IsStmt types Joins τ stmt)
    (hF : ∃ t, d.Faces t ∧ ¬ Continues τ t.kind) :
    (∃ s, next types nesting (.start c) = (.ok stmt, s) ∧ s.cursor = d) ∨
    ∃ f s, next types nesting (.start c) = (.error f, s) ∧
      ((f = .tooDeep ∧ TooDeep types nesting τ) ∨ ∃ t ∈ τ, Overlong t f) := by
  have hat : At (.start c) (ν ++ τ) d := ⟨ready_start _, hr⟩
  have hm : ReadsStmt (fun t f => f = .tooDeep ∨ Overlong t f) (statement types nesting 0)
      (IsStmt types Joins) :=
    statement_reads (fun _ => .inl rfl) (fun hk hf => .inr ⟨hk, hf, rfl⟩) nesting 0
  rcases arrives_oneStatement hm hat hν hS hF with ⟨s, h, hc⟩ | ⟨f, s, h, t, ht, rfl | hlong⟩
  · exact .inl ⟨s, h, (hr.unique hc.reads).symm⟩
  · -- within the levels nothing would have gone too deep
    have hwithin : ∀ stmt', ¬ StmtWithin types (fun _ => True) nesting 0 τ stmt' := by
      intro stmt' hS'
      have hm' : ReadsStmt Overlong (statement types nesting 0)
          (StmtWithin types (fun _ => True) nesting 0) :=
        statement_reads_within (fun _ => trivial) (fun hk _ => fits_or_overlong hk) nesting 0
      rcases arrives_oneStatement hm' hat hν hS' hF with ⟨s', h', -⟩ | ⟨f, s', h', t', -, -, -, hf⟩
      · cases h.symm.trans h'
      · cases h.symm.trans h'
        cases hf
    refine .inr ⟨_, s, h, .inl ⟨rfl, hwithin, ?_⟩⟩
    by_contra hlong
    exact hwithin stmt (within_of_isStmt _ rfl (Nat.not_lt.mp hlong) hS)
  · refine .inr ⟨f, s, h, .inr ⟨t, ?_, hlong⟩⟩
    rcases List.mem_append.mp ht with ht | ht
    · exact absurd ((hν t ht).symm.trans hlong.1) (by decide)
    · exact ht

/-- **The parser accepts exactly its grammar.**  What it takes, newlines apart, derives
the statement it gives.  And tokens with a derivation, behind which comes no token
that goes on with them, are taken as a whole, if they do not nest too deeply and no
number among them has too many digits; the statement is the derived one, when
neighbours in its blocks are taken together.  How deeply tokens nest is counted along
their derivation, not by their number: a list is as many levels deeper than its items
whether it is short or long. -/
theorem next_exact (types : List TypeName) (nesting : Nat) (c : Cursor) :
    (∀ stmt s, next types nesting (.start c) = (.ok stmt, s) →
      ∃ ν τ, IsNewlines ν ∧ c.Reads (ν ++ τ) s.cursor ∧ s.endOffset = s.cursor.offset ∧
        IsStmt types Never τ stmt) ∧
    ∀ ν τ d stmt, IsNewlines ν → c.Reads (ν ++ τ) d → IsStmt types Never τ stmt →
      (∃ t, d.Faces t ∧ ¬ Continues τ t.kind) →
      (∃ stmt' s, next types nesting (.start c) = (.ok stmt', s) ∧ s.cursor = d ∧
        IsStmt types Never τ stmt' ∧ (IsStmt types Joins τ stmt → stmt' = stmt)) ∨
      ∃ f s, next types nesting (.start c) = (.error f, s) ∧
        ((f = .tooDeep ∧ TooDeep types nesting τ) ∨ ∃ t ∈ τ, Overlong t f) := by
  constructor
  · intro stmt s h
    obtain ⟨ν, τ, hν, hr, he, hS⟩ := next_sound h
    exact ⟨ν, τ, hν, hr, he, isStmt_of_joined _ rfl hS⟩
  · intro ν τ d stmt hν hr hS hF
    obtain ⟨best, hbest⟩ := exists_joined _ rfl hS
    rcases next_complete nesting hν hr hbest hF with ⟨s, h1, hd⟩ | herror
    · refine .inl ⟨best, s, h1, hd, isStmt_of_joined _ rfl hbest, fun hj => ?_⟩
      rcases next_complete nesting hν hr hj hF with ⟨s', h2, -⟩ | ⟨f, s', h2, -⟩ <;>
        rw [h1] at h2 <;> cases h2
      rfl
    · exact .inr herror

end SpanScript.Reader
