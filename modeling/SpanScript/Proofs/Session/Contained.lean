import SpanScript.Proofs.Session.Reachable

/-!
# What leaves a statement

Whatever a statement does wrong is reported as a fault of it.  In a reachable session
nothing that a run looks up is missing, and no value is returned where nothing has been
called, so neither leaves a statement.  One thing does: the report of a break for which
there are no loops names the count, and a count with too many digits cannot be printed.
Inside a function such a break is a fault like any other.

* `Session.BreaksBeyond`: a statement ends by such a break.
* `Session.runStatement_contained`: it escapes, and nothing else does.
-/

namespace SpanScript.Session

/-- The statement is run in the session, and ends by leaving more loops than there are,
by a count with too many digits to be printed. -/
def BreaksBeyond (s : Session) (stmt : Stmt) : Prop :=
  s.store.closed = false ∧ ∃ n, printLimit ≤ n.natAbs ∧
    (((machine s.limits.turns s.limits.levels).exec Store.globalChain stmt).run.run
      s.store.counted).1 = .ok (.breaking n)

inductive Reported : Except Failure Unit → Prop
  | ended : Reported (.ok ())
  | fault (cause : Fault) (loc : Location) : Reported (.error (.fault cause loc))
  | unfinished : Reported (.error .unfinished)

theorem Reported.cases {r : Except Failure Unit} (h : Reported r) :
    r = .ok () ∨ (∃ cause loc, r = .error (.fault cause loc)) ∨ r = .error .unfinished := by
  cases h with
  | ended => exact .inl rfl
  | fault cause loc => exact .inr (.inl ⟨cause, loc, rfl⟩)
  | unfinished => exact .inr (.inr rfl)

theorem reported_ofHalt (loc : Location) {h : Halt} (hh : ∀ what, h ≠ .absent what) :
    Reported (.error (.ofHalt loc h)) := by
  cases h with
  | fault cause place => exact .fault cause place
  | tooDeep => exact .fault _ _
  | printTooLong => exact .fault _ _
  | absent what => exact absurd rfl (hh what)
  | unfinished => exact .unfinished

theorem reported_ofCompletion (loc : Location) {c : Completion}
    (hb : ∀ n, c = .breaking n → ¬ printLimit ≤ n.natAbs) (hr : ∀ v, c ≠ .returning v) :
    Reported (ofCompletion loc c) := by
  cases c with
  | normal => exact .ended
  | breaking n =>
    have hn : integerText n = .ok (toString n) := if_neg (hb n rfl)
    rw [ofCompletion, hn]
    exact .fault _ _
  | continuing => exact .fault _ _
  | returning v => exact absurd rfl (hr v)

theorem ofCompletion_beyond (loc : Location) {n : Int} (hn : printLimit ≤ n.natAbs) :
    ofCompletion loc (.breaking n) = .error (.escaped .printTooLong) := by
  have ht : integerText n = .error .printTooLong := if_pos hn
  rw [ofCompletion, ht]

/-- How a statement ends, in a session whose store is sound and in which no call is
running. -/
theorem runStatement_ends {s : Session} (hs : s.store.Sound True) (hc : s.store.calls = [])
    (stmt : Stmt) :
    (s.BreaksBeyond stmt ∧
        (runStatement s.limits s.store stmt).1 = .error (.escaped .printTooLong)) ∨
      (¬ s.BreaksBeyond stmt ∧ Reported (runStatement s.limits s.store stmt).1) := by
  have hl := exec_lands hs stmt.admits_true
  rw [← runBy_machine, runBy, BreaksBeyond]
  cases hclosed : s.store.closed with
  | true => exact .inr ⟨fun h => Bool.noConfusion h.1, .fault _ _⟩
  | false =>
    rw [if_neg Bool.false_ne_true]
    generalize ((machine s.limits.turns s.limits.levels).exec Store.globalChain stmt).run.run
      s.store.counted = x at hl
    rcases x with ⟨h | c, t⟩
    · refine .inr ⟨?_, reported_ofHalt _ fun what hw => hl.found what (congrArg _ hw)⟩
      rintro ⟨-, n, -, hn⟩
      cases hn
    · by_cases hb : ∃ n, printLimit ≤ n.natAbs ∧ c = .breaking n
      · obtain ⟨n, hn, rfl⟩ := hb
        exact .inl ⟨⟨rfl, n, hn, rfl⟩, ofCompletion_beyond _ hn⟩
      · refine .inr ⟨?_, reported_ofCompletion _ (fun n hcn hn => hb ⟨n, hn, hcn⟩) fun v hv => ?_⟩
        · rintro ⟨-, n, hn, hcn⟩
          exact hb ⟨n, hn, Except.ok.inj hcn⟩
        · -- a value is returned from a running call, and there is none
          have hfits := hl.answer c rfl
          rw [hv] at hfits
          exact hfits.2 (hl.later.calls.trans hc)

/-- What a statement that has been parsed comes to, by how it ends when it is run. -/
theorem perform_parsed {s : Session} {text : PlacedText} {offset stop : Nat} {stmt : Stmt}
    (hp : parse s.limits text offset = .ok (stmt, stop)) :
    (s.perform text offset).1 = match (runStatement s.limits s.store stmt).1 with
      | .ok () => .ended stop
      | .error f => ofFailure s.file offset f := by
  unfold perform
  rw [hp]
  dsimp only
  rcases runStatement s.limits s.store stmt with ⟨_ | _, _⟩ <;> rfl

/-- **What leaves a statement.**  In a reachable session, open or closed, a statement ends,
or fails by a fault, or is not followed to its end; only a break out of more loops than
there are, by a count with too many digits to be printed, escapes.  So a text from which
the statement is parsed gives the offset behind it or the message of the fault. -/
theorem runStatement_contained {s : Session} (hs : s.Reachable) (stmt : Stmt) :
    let result := (runStatement s.limits s.store stmt).1
    (s.BreaksBeyond stmt → result = .error (.escaped .printTooLong)) ∧
    (¬ s.BreaksBeyond stmt →
      result = .ok () ∨ (∃ cause loc, result = .error (.fault cause loc)) ∨
        result = .error .unfinished) ∧
    ∀ text offset stop, parse s.limits text offset = .ok (stmt, stop) →
      let outcome := (s.perform text offset).1
      (s.BreaksBeyond stmt → outcome = .escaped printTooLongMessage) ∧
      (¬ s.BreaksBeyond stmt →
        outcome = .ended stop ∨
          (∃ (cause : Fault) (loc : Location),
            outcome = .failed (cause.message ++ " at " ++ loc.text s.file) offset) ∨
          outcome = .unfinished) := by
  intro result
  obtain ⟨hsound, hcalls⟩ := hs.sound
  rcases runStatement_ends hsound hcalls stmt with ⟨hb, hr⟩ | ⟨hb, hr⟩
  · refine ⟨fun _ => hr, absurd hb, fun text offset stop hp => ?_⟩
    rw [perform_parsed hp, hr]
    exact ⟨fun _ => rfl, absurd hb⟩
  · refine ⟨fun h => absurd h hb, fun _ => hr.cases, fun text offset stop hp => ?_⟩
    refine ⟨fun h => absurd h hb, fun _ => ?_⟩
    rw [perform_parsed hp]
    rcases hr.cases with h | ⟨cause, loc, h⟩ | h <;> rw [h]
    · exact .inl rfl
    · exact .inr (.inl ⟨cause, loc, rfl⟩)
    · exact .inr (.inr rfl)

theorem exists_parsed {limits : Limits} {text : PlacedText} {offset : Nat}
    (h : (parse limits text offset).isOk = true) :
    ∃ stmt stop, parse limits text offset = .ok (stmt, stop) := by
  cases hp : parse limits text offset with
  | ok x => exact ⟨x.1, x.2, rfl⟩
  | error f =>
    rw [hp] at h
    cases h

/-- `BREAK(POW(10, 4300))` leaves so many loops that the count has 4301 digits. -/
theorem runStatement_contained_break :
    let text : Bytes := [66, 82, 69, 65, 75, 40, 80, 79, 87, 40, 49, 48, 44, 32, 52, 51, 48, 48, 41,
      41]
    ∃ stmt stop, parse (start "t").limits (.ofBytes text) 0 = .ok (stmt, stop) ∧
      (start "t").BreaksBeyond stmt ∧
      (runStatement (start "t").limits (start "t").store stmt).1
        = .error (.escaped .printTooLong) := by
  intro text
  obtain ⟨stmt, stop, hp⟩ : ∃ stmt stop,
      parse (start "t").limits (.ofBytes text) 0 = .ok (stmt, stop) :=
    exists_parsed (by decide +kernel)
  obtain ⟨hbeyond, -, houtcome⟩ := runStatement_contained (reachable_start "t") stmt
  suffices hb : (start "t").BreaksBeyond stmt from ⟨stmt, stop, hp, hb, hbeyond hb⟩
  refine Classical.byContradiction fun hb => ?_
  have hesc : ((start "t").perform (.ofBytes text) 0).1 = .escaped printTooLongMessage := by
    decide +kernel
  rcases (houtcome _ 0 stop hp).2 hb with h | ⟨_, _, h⟩ | h <;> rw [hesc] at h <;> cases h

/-- A statement that is parsed, run in a new session, can escape. -/
theorem break_escapes :
    let text : Bytes := [66, 82, 69, 65, 75, 40, 80, 79, 87, 40, 49, 48, 44, 32, 52, 51, 48, 48, 41,
      41]
    (start "t").Reachable ∧
      (∃ stmt stop, parse (start "t").limits (.ofBytes text) 0 = .ok (stmt, stop)) ∧
      ((start "t").perform (.ofBytes text) 0).1 = .escaped printTooLongMessage :=
  ⟨reachable_start "t", exists_parsed (by decide +kernel), by decide +kernel⟩

end SpanScript.Session
