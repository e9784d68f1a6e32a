import SpanScript.Proofs.Eval.Tracking
import SpanScript.Proofs.Session.Places
import SpanScript.Proofs.Session.Reachable
import SpanScript.Proofs.Syntax.Lines

/-!
# Statements one after the other

The same statements can be run in two ways.  A render runs them in turn: each is a run of
its own, counted, at the outermost level of the machine, and what it has printed is taken
out of the store before the next one is run.  A block runs them in one run, some levels
further down, and what they print piles up in the store.

The two differ in nothing else.  The invariant that carries the run of a block is that its
store is that of the runs in turn, but for what has been printed before and for the number
of runs, neither of which a rule looks at; and a machine of fewer levels ends as one of
more levels does, unless it goes too deep.

* `Session.inTurn`: what statements come to in turn; `inTurn_alike`: whatever their places.
* `Store.Trails`: the invariant; `law_trails`: rules keep it.
* `Machine.completed`: how far a block comes.
* `block_inTurn`: a block comes as far as its statements do in turn, and to the same.
-/

namespace SpanScript

namespace Session

/-! ## In turn -/

/-- What statements come to that are run one after the other: how many of them ended
normally, the texts they printed, how the last one that was run ended, and the store that
is left, from which the texts have been taken. -/
structure Progress where
  ended : Nat
  printed : List String
  result : Except Failure Unit
  store : Store

/-- Runs statements one after the other, up to one that fails. -/
def inTurn (limits : Limits) (store : Store) : List Stmt → Progress
  | [] => ⟨0, [], .ok (), store⟩
  | stmt :: rest =>
    match runStatement limits store stmt with
    | (.ok (), next) =>
      let p := inTurn limits next.flushed rest
      ⟨p.ended + 1, next.printed :: p.printed, p.result, p.store⟩
    | (.error f, next) => ⟨0, [next.printed], .error f, next.flushed⟩

def Progress.relocate (f : Location → Location) (p : Progress) : Progress :=
  { p with result := p.result.mapError (Failure.relocate f), store := p.store.relocate f }

/-- **Statements in turn do not look at places.** -/
theorem inTurn_relocate (f : Location → Location) (limits : Limits) :
    ∀ (stmts : List Stmt) (store : Store),
      inTurn limits (store.relocate f) (stmts.map (Stmt.relocate f))
        = (inTurn limits store stmts).relocate f := by
  intro stmts
  induction stmts with
  | nil => exact fun _ => rfl
  | cons stmt rest ih =>
    intro store
    rw [List.map_cons, inTurn, inTurn, runStatement_relocate]
    rcases runStatement limits store stmt with ⟨x | _, next⟩
    · rfl
    · exact congrArg (fun p : Progress =>
        (⟨p.ended + 1, next.printed :: p.printed, p.result, p.store⟩ : Progress))
        (ih next.flushed)

/-- Statements that differ in their places, on a store that does, come to the same. -/
theorem inTurn_alike (limits : Limits) {s t : Store} {as bs : List Stmt} (hs : Store.Alike s t)
    (h : as.map (Stmt.relocate Location.forget) = bs.map (Stmt.relocate Location.forget)) :
    (inTurn limits s as).relocate Location.forget
      = (inTurn limits t bs).relocate Location.forget := by
  rw [← inTurn_relocate, ← inTurn_relocate, hs, h]

/-! ## The end of a statement -/

/-- What the run of a statement at `location` comes to. -/
def ofRun (location : Location) : Except Halt Completion → Except Failure Unit
  | .ok c => ofCompletion location c
  | .error h => .error (.ofHalt location h)

theorem runStatement_opened (limits : Limits) {store : Store} (h : store.closed = false)
    (stmt : Stmt) :
    runStatement limits store stmt =
      let r := ((machine limits.turns limits.levels).exec Store.globalChain stmt).run.run
        store.counted
      (ofRun stmt.location r.1, r.2) := by
  rw [← runBy_machine, runBy, if_neg (by rw [h]; exact Bool.false_ne_true)]
  dsimp only
  generalize ((machine limits.turns limits.levels).exec Store.globalChain stmt).run.run
    store.counted = r
  obtain ⟨_ | _, _⟩ := r <;> rfl

/-- The place of a statement shows in the place of its failure only. -/
theorem ofRun_forget (loc loc' : Location) (r : Except Halt Completion) :
    (ofRun loc r).mapError (Failure.relocate Location.forget)
      = (ofRun loc' r).mapError (Failure.relocate Location.forget) := by
  cases r with
  | error h => cases h <;> rfl
  | ok c =>
    rw [ofRun, ofRun, ← ofCompletion_relocate, ← ofCompletion_relocate]
    rfl

theorem ofRun_eq_ok {loc : Location} {r : Except Halt Completion} :
    ofRun loc r = .ok () ↔ r = .ok .normal := by
  constructor
  · intro h
    cases r with
    | error h' => cases h
    | ok c =>
      cases c with
      | normal => rfl
      | breaking n =>
        rw [ofRun, ofCompletion] at h
        split at h <;> cases h
      | continuing => cases h
      | returning v => cases h
  · rintro rfl
    rfl

end Session

/-! ## In a block -/

/-- The store `s` of a block that had printed `out` when a statement of it began, and the
store `t` of that statement by itself. -/
structure Store.Trails (out : String) (s t : Store) : Prop where
  rest : t = { s with executed := t.executed, printed := t.printed }
  printed : s.printed = out ++ t.printed
  opened : s.closed = false

/-- **No rule looks at what has been printed**, or at the number of runs. -/
theorem Store.law_trails (out : String) : Store.Law (Store.Trails out) (· ≠ []) where
  scopes h := by rw [h.rest]
  tensors h := by rw [h.rest]
  functions h := by rw [h.rest]
  calls h := by rw [h.rest]
  nonempty h := h
  enter _ _ := List.cons_ne_nil _ _
  put h _ _ x v := ⟨by rw [h.rest]; rfl, h.printed, h.opened⟩
  remove h _ _ x := ⟨by rw [h.rest]; rfl, h.printed, h.opened⟩
  addScope h := ⟨by rw [h.rest]; rfl, h.printed, h.opened⟩
  addTensor h T := ⟨by rw [h.rest]; rfl, h.printed, h.opened⟩
  setCell h ref n v := ⟨by rw [h.rest]; rfl, h.printed, h.opened⟩
  define h _ _ _ _ _ := ⟨by rw [h.rest]; rfl, h.printed, h.opened⟩
  print h text := ⟨by rw [h.rest]; rfl,
    (congrArg (· ++ text) h.printed).trans (String.append_assoc ..), h.opened⟩

/-- How many statements of a block end normally, one after the other. -/
def Machine.completed (m : Machine) (chain : Chain) (store : Store) : List Stmt → Nat
  | [] => 0
  | s :: rest =>
    match (m.exec chain s).run.run store with
    | (.ok .normal, next) => m.completed chain next rest + 1
    | _ => 0

theorem Machine.run_block_cons (m : Machine) (chain : Chain) (stmt : Stmt) (rest : List Stmt)
    (store : Store) :
    (m.block chain (stmt :: rest)).run.run store =
      match (m.exec chain stmt).run.run store with
      | (.ok .normal, next) => (m.block chain rest).run.run next
      | r => r := by
  rw [block, Run.run_bind]
  rcases (m.exec chain stmt).run.run store with ⟨_ | c, next⟩
  · rfl
  · cases c <;> rfl

namespace Session

/-- A statement in a block ends as it does by itself, unless it goes too deep. -/
theorem exec_tracks (turns : Nat) {levels levels' : Nat} (hl : levels ≤ levels') (out : String)
    (stmt : Stmt) :
    Run.Tracks (Store.Trails out) (· = .tooDeep)
      ((machine turns levels).exec Store.globalChain stmt)
      ((machine turns levels').exec Store.globalChain stmt) := by
  have hmachine : (machine turns levels).Tracks (Store.Trails out) (· ≠ []) (· = .tooDeep)
      (machine turns levels') :=
    machine_tracks (Store.law_trails out)
      (fun _ _ _ h => ⟨by rw [h.rest]; rfl, h.printed, h.opened⟩)
      (fun h => ⟨by rw [h.rest]; rfl, h.printed, h.opened⟩) turns ⟨hl, fun h => absurd rfl h⟩
  exact hmachine.exec 0 (List.cons_ne_nil _ _) stmt

/-- **A block does what its statements do in turn.**  Unless it goes too deep, as many of
them end normally, it prints the same texts and leaves the same store, and it ends as the
last one does that is run. -/
theorem block_inTurn (limits : Limits) {levels : Nat} (hl : levels ≤ limits.levels)
    (loc : Location) :
    ∀ (stmts : List Stmt) {out : String} {s t : Store}, s.Trails out t → t.printed = "" →
      let m := machine limits.turns levels
      let r := (m.block Store.globalChain stmts).run.run s
      let p := inTurn limits t stmts
      r.1 = .error .tooDeep ∨
        (ofRun loc r.1).mapError (Failure.relocate Location.forget)
            = p.result.mapError (Failure.relocate Location.forget) ∧
          m.completed Store.globalChain s stmts = p.ended ∧
          r.2.Trails (p.printed.foldl (· ++ ·) out) p.store ∧ p.store.printed = "" := by
  intro stmts
  induction stmts with
  | nil => exact fun h ht => .inr ⟨rfl, rfl, h, ht⟩
  | cons stmt rest ih =>
    intro out s t h ht
    dsimp only
    have hopen : t.closed = false := by rw [h.rest]; exact h.opened
    have hcount : s.Trails out t.counted :=
      ⟨by rw [h.rest]; rfl, h.printed, h.opened⟩
    have htrack := exec_tracks limits.turns hl out stmt s _ hcount
    rw [Machine.run_block_cons, Machine.completed, inTurn, runStatement_opened limits hopen]
    unfold Run.TracksAt at htrack
    generalize ((machine limits.turns levels).exec Store.globalChain stmt).run.run s = x
      at htrack ⊢
    generalize ((machine limits.turns limits.levels).exec Store.globalChain stmt).run.run
      t.counted = y at htrack ⊢
    obtain ⟨r, s₁⟩ := x
    obtain ⟨r', t₁⟩ := y
    obtain ⟨_, hr, rfl⟩ | ⟨hr, h₁⟩ := htrack
    · obtain rfl : r = _ := hr
      exact .inl rfl
    · obtain rfl : r' = r := hr
      have h₁ : s₁.Trails out t₁ := h₁
      -- what the statement printed is taken out of the one store and stays in the other
      have hflush : s₁.Trails (out ++ t₁.printed) t₁.flushed :=
        ⟨by rw [h₁.rest]; rfl, h₁.printed.trans (String.append_empty).symm, h₁.opened⟩
      have hstop : ∀ {f}, ofRun stmt.location r' = .error f →
          (ofRun loc r').mapError (Failure.relocate Location.forget)
            = .error (f.relocate Location.forget) :=
        fun hf => (ofRun_forget loc stmt.location r').trans (by rw [hf]; rfl)
      cases r' with
      | error h' => exact .inr ⟨hstop rfl, rfl, hflush, rfl⟩
      | ok c =>
        cases hf : ofRun stmt.location (.ok c) with
        | ok _ =>
          cases ofRun_eq_ok.mp hf
          exact (ih hflush rfl).imp_right fun ⟨hr, hn, hrest⟩ =>
            ⟨hr, congrArg (· + 1) hn, hrest⟩
        | error f =>
          simp only [hf]
          cases c with
          | normal => cases hf
          | _ => exact .inr ⟨hstop hf, rfl, hflush, rfl⟩

end Session

/-! ## In the block of a choice -/

theorem truth_int (levels : Nat) (n : Int) (s : Store) :
    (Run.truth levels (.int n)).run.run s = (.ok (n != 0), s) := by
  have h : ∀ s : Store, s.truth levels (.int n) = .ok (n != 0) := by
    cases levels <;> exact fun _ => rfl
  simp only [Run.truth, h]
  rfl

/-- A choice whose test holds runs its block, three levels further down. -/
theorem exec_always (turns levels : Nat) (chain : Chain) (loc test brace : Location)
    (body : List Stmt) (s : Store) :
    ((machine turns (levels + 1 + 3)).exec chain (.always loc test brace body)).run.run s
      = ((machine turns (levels + 1)).block chain body).run.run s := by
  have hunder : (machine turns (levels + 1 + 2)).under 2 = machine turns (levels + 1) :=
    under_machine turns 2 (levels + 1 + 2)
  have htest : ((machine turns (levels + 1)).test chain (.literal test (.int 1))).run.run s
      = (.ok true, s) := by
    rw [Machine.test, eval_machine, Run.run_bind]
    exact truth_int _ 1 s
  rw [exec_machine, Stmt.always, Machine.execRule, Machine.firstHolding]
  show (((machine turns (levels + 1 + 2)).under 2).test chain (.literal test (.int 1)) >>=
    fun b => if b then ((machine turns (levels + 1 + 2)).under 2).block chain body
      else _ : Run Completion).run.run s = _
  rw [hunder, Run.run_bind, htest]
  rfl

namespace Session

/-- How many statements of the block of a choice end normally, when the choice is the
statement that a session runs. -/
def completedIn (limits : Limits) (store : Store) (body : List Stmt) : Nat :=
  (machine limits.turns (limits.levels - (1 + Machine.Weight.branch))).completed
    Store.globalChain store.counted body

/-- **A choice that holds does what the statements of its block do in turn**, unless it
goes too deep. -/
theorem runStatement_always {limits : Limits} (hl : 3 < limits.levels) (loc test brace : Location)
    (body : List Stmt) {store : Store} (ho : store.closed = false) (hp : store.printed = "") :
    let r := runStatement limits store (.always loc test brace body)
    let p := inTurn limits store body
    r.1 = .error (.fault .tooDeep loc) ∨
      r.1.mapError (Failure.relocate Location.forget)
          = p.result.mapError (Failure.relocate Location.forget) ∧
        completedIn limits store body = p.ended ∧
        r.2.Trails (p.printed.foldl (· ++ ·) "") p.store ∧ p.store.printed = "" := by
  obtain ⟨levels, hlevels⟩ : ∃ levels, limits.levels = levels + 1 + 3 :=
    ⟨limits.levels - 4, by omega⟩
  have hinner : limits.levels - (1 + Machine.Weight.branch) = levels + 1 := by
    rw [hlevels]
    rfl
  have htrails : Store.Trails "" store.counted store :=
    ⟨rfl, String.empty_append.symm, ho⟩
  have hle : levels + 1 ≤ limits.levels := by omega
  dsimp only
  rw [runStatement_opened limits ho, completedIn, hinner, hlevels, exec_always]
  obtain hdeep | h := block_inTurn limits hle loc body htrails hp
  · exact .inl (congrArg (ofRun loc) hdeep)
  · exact .inr h

end Session

end SpanScript
