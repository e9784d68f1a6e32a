import SpanScript.Proofs.Eval.Staying
import SpanScript.Proofs.Session.Contained

/-!
# Where failures are located

A fault that a statement ends in is placed at a node of it, or at a node of a `FUNC`
statement that was run before it in the session: the statement that defined the function
in which the fault came up.  So the message of every failure ends with a place that the
reader of the program can find.

The functions of a session come from the statements that have been run, so the sessions are
counted here together with these.

* `runStatement_within`: the faults of a statement, and the functions it leaves.
* `Session.Ran`: a session and the statements that have been run in it.
* `Ran.defined`: where the functions of a session are defined.
* `faults_located`: where its faults are placed.
-/

namespace SpanScript

open Run

theorem Material.exists_of_place {S : Stmt → Prop} {loc : Location}
    (h : (Material.nodes S).Place loc) : ∃ s, S s ∧ s.HasPlace loc := by
  rcases h with ⟨n, ⟨s, hs, hn⟩, hloc⟩ | ⟨e, ⟨s, hs, he⟩, hloc⟩
  · exact ⟨s, hs, .inl ⟨n, hn, hloc⟩⟩
  · exact ⟨s, hs, .inr ⟨e, he, hloc⟩⟩

/-- The count that a loop has just read can be written again: the name is bound, to an
integer. -/
theorem assign_after_readCounter {s t : Store} {chain : Chain} {loc : Location} {x : String}
    {n : Int} (h : (Machine.readCounter chain loc x).run.run s = (.ok n, t)) (loc' : Location)
    (k : Int) : ((Run.assign loc' chain x (.int k) none).run.run t).1 = .ok () := by
  rw [Machine.readCounter, Run.run_get] at h
  cases hx : s.get? chain x with
  | none => rw [hx] at h; cases h
  | some v =>
    rw [hx] at h
    cases v with
    | int m =>
      cases h
      obtain ⟨id, hid, -⟩ := Option.bind_eq_some_iff.mp hx
      have ha : s.assignScope chain x (.int k) none = .ok id := by
        rw [Store.assignScope, hid, hx]
        rfl
      rw [Run.run_assign_ok ha]
    | _ => cases h

namespace Session

/-! ## One statement -/

/-- A halt of a statement comes to a fault of the halt, or to one placed at the statement. -/
theorem blames_ofHalt {M : Material} {stmt : Stmt} (hstmt : M.stmt stmt) {h : Halt}
    (hh : ∀ cause loc, h = .fault cause loc → M.Blames cause loc) {cause : Fault} {loc : Location}
    (he : Failure.ofHalt stmt.location h = .fault cause loc) : M.Blames cause loc := by
  cases h with
  | fault cause' loc' => cases he; exact hh _ _ rfl
  | tooDeep => cases he; exact Material.blames_plain rfl (Material.place_of_stmt hstmt)
  | printTooLong => cases he; exact Material.blames_plain rfl (Material.place_of_stmt hstmt)
  | absent what => cases he
  | unfinished => cases he

theorem blames_ofCompletion {M : Material} {stmt : Stmt} (hstmt : M.stmt stmt) {c : Completion}
    {cause : Fault} {loc : Location}
    (he : ofCompletion stmt.location c = .error (.fault cause loc)) : M.Blames cause loc := by
  cases c with
  | normal => cases he
  | breaking n =>
    unfold ofCompletion at he
    dsimp only at he
    split at he <;> cases he
    exact Material.blames_plain rfl (Material.place_of_stmt hstmt)
  | continuing => cases he; exact Material.blames_plain rfl (Material.place_of_stmt hstmt)
  | returning v => cases he

/-- **A statement stays in every material** that it is of and that its store is within. -/
theorem runStatement_within {M : Material} (limits : Limits) {store : Store}
    (hs : store.Within M) {stmt : Stmt} (hstmt : M.stmt stmt) :
    (runStatement limits store stmt).2.Within M ∧
      ∀ cause loc, (runStatement limits store stmt).1 = .error (.fault cause loc) →
        M.Blames cause loc := by
  have hrun := exec_stays M limits.turns limits.levels Store.globalChain hstmt store.counted
    ⟨hs.scopes, hs.functions, hs.running⟩
  rw [← runBy_machine, runBy]
  split
  · refine ⟨hs, fun cause loc he => ?_⟩
    cases he
    exact Material.blames_plain rfl (Material.place_of_stmt hstmt)
  · generalize ((machine limits.turns limits.levels).exec Store.globalChain stmt).run.run
      store.counted = x at hrun
    rcases x with ⟨h | c, t⟩
    · refine ⟨hrun.store, fun cause loc he => blames_ofHalt hstmt ?_ (Except.error.inj he)⟩
      exact fun cause loc hf => hrun.blames cause loc (congrArg _ hf)
    · exact ⟨hrun.store, fun cause loc he => blames_ofCompletion hstmt he⟩

/-! ## Any number of statements -/

/-- A session comes about when some statements are run in a new one, one after the other. -/
inductive Ran : List Stmt → Session → Prop
  | new (file : String) (limits : Limits) : Ran [] ⟨file, limits, .initial⟩
  | after {ran : List Stmt} {s : Session} (stmt : Stmt) :
    Ran ran s → Ran (ran ++ [stmt]) (s.after stmt)
  | flush {ran : List Stmt} {s : Session} : Ran ran s → Ran ran s.flush
  | close {ran : List Stmt} {s : Session} : Ran ran s → Ran ran s.close

theorem Ran.reachable {ran : List Stmt} {s : Session} (h : s.Ran ran) : s.Reachable := by
  induction h with
  | new file limits => exact .new file limits
  | after stmt _ ih => exact ih.after stmt
  | flush _ ih => exact ih.flush
  | close _ ih => exact ih.close

/-- A `FUNC` statement that stands in one of the statements that have been run, and that the
session has a function of. -/
def Defined (s : Session) (ran : List Stmt) (d : Stmt) : Prop :=
  (∃ stmt ∈ ran, stmt.Node d) ∧
    ∃ loc, ∃ f ∈ s.store.functions, d = .define loc f.1 f.2.params f.2.returns f.2.body

/-- What a statement that is run next may come to: its own nodes, and those of the `FUNC`
statements that the session has functions of. -/
def material (s : Session) (ran : List Stmt) (stmt : Stmt) : Material :=
  .nodes fun d => d = stmt ∨ s.Defined ran d

section

variable {s : Session} {ran : List Stmt}

theorem within_material (hcalls : s.store.calls = []) (hscopes : 0 < s.store.scopes.size)
    (h : ∀ f ∈ s.store.functions, ∃ d, s.Defined ran d ∧
      ∃ loc, d = .define loc f.1 f.2.params f.2.returns f.2.body) (stmt : Stmt) :
    s.store.Within (s.material ran stmt) := by
  refine ⟨hscopes, fun f hf => ?_, fun name hname => nomatch hcalls ▸ hname⟩
  obtain ⟨d, hd, loc, rfl⟩ := h f hf
  exact ⟨loc, _, .inr hd, .self⟩

/-- **The functions of a session are defined in the statements that have been run.** -/
theorem Ran.defined (h : s.Ran ran) :
    ∀ f ∈ s.store.functions, ∃ d, s.Defined ran d ∧
      ∃ loc, d = .define loc f.1 f.2.params f.2.returns f.2.body := by
  induction h with
  | new file limits => exact fun _ hf => nomatch hf
  | flush _ ih => exact ih
  | close _ _ => exact fun _ hf => nomatch hf
  | @after ran s stmt h ih =>
    obtain ⟨hsound, hcalls⟩ := h.reachable.sound
    have hw := within_material hcalls hsound.scopes ih stmt
    obtain ⟨hafter, -⟩ := runStatement_within s.limits hw ⟨stmt, .inl rfl, .self⟩
    intro f hf
    obtain ⟨loc, d, hd, hnode⟩ := hafter.functions f hf
    refine ⟨_, ⟨?_, loc, f, hf, rfl⟩, loc, rfl⟩
    -- what is defined stands in the statement, or in the body of a function that it calls
    rcases hd with rfl | ⟨⟨stmt', hstmt', hd⟩, -⟩
    · exact ⟨d, List.mem_append_right _ (List.mem_singleton_self d), hnode⟩
    · exact ⟨stmt', List.mem_append_left _ hstmt', hd.trans hnode⟩

end

/-- **Every failure is located.**  Some statements have been run in a session, one after the
other and however they ended; whatever fault the next one ends in, it is placed at a node of
that statement, or at a node of a `FUNC` statement which stands in one of those before and
which the session has a function of.  When the statement was parsed from a text, the message
of the failure ends with that place.  The write of the next count of a loop would need none:
it comes right after the count has been read, and then it does not fail. -/
theorem faults_located {s : Session} {ran : List Stmt} (h : s.Ran ran) :
    (∀ stmt cause loc, (runStatement s.limits s.store stmt).1 = .error (.fault cause loc) →
      (∃ d, (d = stmt ∨ s.Defined ran d) ∧ d.HasPlace loc) ∧
      ∀ text offset stop, parse s.limits text offset = .ok (stmt, stop) →
        (s.perform text offset).1
          = .failed (cause.message ++ " at " ++ loc.text s.file) offset) ∧
    ∀ (chain : Chain) (loc loc' : Location) (counter : String) (n k : Int) (store store' : Store),
      (Machine.readCounter chain loc counter).run.run store = (.ok n, store') →
        ((Run.assign loc' chain counter (.int k) none).run.run store').1 = .ok () := by
  refine ⟨fun stmt cause loc he => ⟨?_, fun text offset stop hp => ?_⟩,
    fun _ _ loc' _ _ k _ _ hr => assign_after_readCounter hr loc' k⟩
  · obtain ⟨hsound, hcalls⟩ := h.reachable.sound
    have hw := within_material hcalls hsound.scopes h.defined stmt
    have hb := (runStatement_within s.limits hw ⟨stmt, .inl rfl, .self⟩).2 cause loc he
    exact Material.exists_of_place hb.place
  · rw [perform_parsed hp, he]
    rfl

/-- A function that reads a name which is not bound, called by a later statement: the fault is
placed in the function. -/
theorem faults_located_function :
    let define : Stmt := .define ⟨1, 1⟩ "F" [] "INT" (.mk ⟨1, 15⟩ [.evaluate (.name ⟨1, 17⟩ "x")])
    let stmt : Stmt := .evaluate (.call ⟨2, 1⟩ "F" [])
    let s := (start "t").after define
    s.Ran [define] ∧
      (runStatement s.limits s.store stmt).1 = .error (.fault (.undefined "x") ⟨1, 17⟩) ∧
      (∃ d, (d = stmt ∨ s.Defined [define] d) ∧ d.HasPlace ⟨1, 17⟩) ∧ ¬ stmt.HasPlace ⟨1, 17⟩ := by
  intro define stmt s
  have hran : s.Ran [define] := .after define (.new "t" .standard)
  have hfault : (runStatement s.limits s.store stmt).1
      = .error (.fault (.undefined "x") ⟨1, 17⟩) := by rfl
  refine ⟨hran, hfault, ((faults_located hran).1 stmt _ _ hfault).1, ?_⟩
  rintro (⟨n, hn, hloc⟩ | ⟨e, ⟨n, hn, e', he', hne⟩, hloc⟩)
  · cases hn with
    | self => cases hloc
    | part hp _ => cases hp
  · cases hn with
    | part hp _ => cases hp
    | self =>
      rw [List.mem_singleton.mp he'] at hne
      cases hne with
      | self => cases hloc
      | part hp _ => cases hp

end Session

end SpanScript
