import SpanScript.Proofs.Eval.Layers
import SpanScript.Proofs.Eval.Safety

/-!
# The body of a call

A call of a function of the program enters its scopes, runs its body as one of the running
calls, and then is decided by how the body has ended.  Nothing of how a body ends passes on
to the caller but a value: a break or a turn that is to end is a fault of the call.

* `Machine.Begins`: a call has come to the beginning of its body.
* `Begins.run_ok`, `Begins.run_error`: what the call comes to.
* `Leads.keeps`: what a run keeps on its way to a statement.
-/

namespace SpanScript

open Run Machine

namespace Machine

/-- A call that is made in `s` comes to the beginning of its body: it has bound its
arguments, its body sees `chain`, and the store is `t`. -/
def Begins (m : Machine) (s : Store) (loc : Location) (name : String) (f : Function)
    (given : Arguments) (chain : Chain) (t : Store) : Prop :=
  ∃ u, (m.enter loc name f given).run.run s = (.ok chain, u) ∧ t = u.calling name

section

variable {m : Machine} {s t u : Store} {loc : Location} {name : String} {f : Function}
  {given : Arguments} {chain : Chain}

/-- **A call is decided by how its body ends.** -/
theorem Begins.run_ok (h : m.Begins s loc name f given chain t) {c : Completion}
    (hb : ((m.under Weight.body).block chain f.body.statements).run.run t = (.ok c, u)) :
    (m.callDefined loc name f given).run.run s = (endOfCall loc name f c).run.run u.called := by
  obtain ⟨v, henter, rfl⟩ := h
  rw [← callDefinedBy_block, callDefinedBy_eq, Run.run_bind, henter]
  dsimp only
  rw [Run.run_bind, run_during, hb]

/-- **A call halts as its body does.** -/
theorem Begins.run_error (h : m.Begins s loc name f given chain t) {halt : Halt}
    (hb : ((m.under Weight.body).block chain f.body.statements).run.run t = (.error halt, u)) :
    (m.callDefined loc name f given).run.run s = (.error halt, u.called) := by
  obtain ⟨v, henter, rfl⟩ := h
  rw [← callDefinedBy_block, callDefinedBy_eq, Run.run_bind, henter]
  dsimp only
  rw [Run.run_bind, run_during, hb]

end

end Machine

/-! ## On the way to a statement -/

section

variable {P : Store → Prop} {C : Chain → Prop}

/-- What all stores of a run have, the last one has. -/
theorem Run.Tracks.keeps {α : Type} {m m' : Run α}
    (h : Run.Tracks (fun s t => t = s ∧ P s) (fun _ => False) m m') {s t : Store}
    {r : Except Halt α} (hm : m.run.run s = (r, t)) (hs : P s) : P t := by
  obtain ⟨_, _, hfalse⟩ | ⟨-, -, ht⟩ := h s s ⟨rfl, hs⟩
  · exact hfalse.elim
  · rw [hm] at ht
    exact ht

theorem Run.WhileTurn.keeps {test : Run Bool} {turn : Run Completion}
    (htest : ∀ {s t r}, test.run.run s = (r, t) → P s → P t)
    (hturn : ∀ {s t r}, turn.run.run s = (r, t) → P s → P t) {k left : Nat} {s t : Store}
    (h : WhileTurn test turn k s left t) (hs : P s) : P t := by
  induction h with
  | here h => exact htest h hs
  | later h h' _ _ ih => exact ih (hturn h' (htest h hs))

theorem Run.CountTurn.keeps {limit : Int} {turn : Run Completion} {read : Run Int}
    {write : Int → Run Unit} (hturn : ∀ {s t r}, turn.run.run s = (r, t) → P s → P t)
    (hnext : ∀ {s t r}, (advance limit read write).run.run s = (r, t) → P s → P t) {k left : Nat}
    {counter : Int} {s t : Store} (h : CountTurn limit turn read write k counter s left t)
    (hs : P s) : P t := by
  induction h with
  | here => exact hs
  | later _ h _ h' _ ih => exact ih (hnext h' (hturn h hs))

variable {turns : Nat} {chain : Chain} (hI : Store.Law (fun s t => t = s ∧ P s) C) (hc : C chain)
  (hm : ∀ levels, ∃ m' : Machine,
    (machine turns levels).Tracks (fun s t => t = s ∧ P s) C (fun _ => False) m')
include hI hc hm

theorem keeps_block {levels : Nat} {stmts : List Stmt} {s t : Store} {r : Except Halt Completion}
    (h : ((machine turns levels).block chain stmts).run.run s = (r, t)) (hs : P s) : P t := by
  obtain ⟨m', hm'⟩ := hm levels
  exact (tracks_block hI hm' hc stmts).keeps h hs

theorem keeps_holds {levels : Nat} {test : Expr} {s t : Store} {r : Except Halt Bool}
    (h : ((machine turns levels).holds chain test).run.run s = (r, t)) (hs : P s) : P t := by
  obtain ⟨m', hm'⟩ := hm levels
  exact (tracks_test hI (hm'.under _) hc test).keeps h hs

theorem Takes.keeps {levels : Nat} {otherwise : Option Block} {branches : List Branch}
    {s t : Store} {stmts : List Stmt}
    (h : Takes (machine turns levels) chain otherwise branches s stmts t) (hs : P s) : P t := by
  induction h with
  | here htest => exact keeps_holds hI hc hm htest hs
  | later htest _ ih => exact ih (keeps_holds hI hc hm htest hs)
  | otherwise => exact hs

theorem Enters.keeps {levels levels' : Nat} {stmt : Stmt} {s t : Store} {stmts : List Stmt}
    {layers : List Layer} (h : Enters turns chain levels stmt s levels' stmts t layers)
    (hs : P s) : P t := by
  have hturn {levels : Nat} {body : Block} {s t : Store} {r : Except Halt Completion}
      (h : ((machine turns levels).turn chain body).run.run s = (r, t)) : P s → P t :=
    keeps_block hI hc hm (turn_machine turns levels body ▸ h)
  cases h with
  | choice htakes => exact htakes.keeps hI hc hm hs
  | whileTurn h => exact h.keeps (keeps_holds hI hc hm) hturn hs
  | @countTurn levels _ loc counter limit n body _ _ _ _ hlimit hassign h =>
    obtain ⟨m', hm'⟩ := hm levels
    have hs := ((hm'.under Weight.operand).eval 0 hc limit).keeps hlimit hs
    have hs := (tracks_assign hI hc loc counter _ _).keeps hassign hs
    have hnext : Run.Tracks (fun s t => t = s ∧ P s) (fun _ => False)
        (Run.advance n (readCounter chain loc counter) (writeCounter chain loc counter))
        (Run.advance n (readCounter chain loc counter) (writeCounter chain loc counter)) :=
      (tracks_readCounter hI loc counter).bind fun k =>
        tracks_ite ((tracks_assign hI hc _ _ _ _).bind fun _ => tracks_pure _) (tracks_pure _)
    exact h.keeps hturn hnext.keeps hs

/-- **What all stores of a run have** is there when the run comes to a statement. -/
theorem Leads.keeps {levels levels' : Nat} {stmts : List Stmt} {s t : Store} {stmt : Stmt}
    {layers : List Layer} (h : Leads turns chain levels stmts s levels' stmt t layers)
    (hs : P s) : P t := by
  induction h with
  | here hbefore => exact keeps_block hI hc hm hbefore hs
  | inside hbefore henters _ ih =>
    exact ih (henters.keeps hI hc hm (keeps_block hI hc hm hbefore hs))

end

end SpanScript
