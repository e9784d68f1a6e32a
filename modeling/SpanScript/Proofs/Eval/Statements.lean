import SpanScript.Proofs.Eval.Calls

/-!
# The rule of statements

In every accord for execution the rule of statements goes alike on both sides, over two
machines that run everything alike.  What a return gives, and what is done to bind a name,
is left open.

* `Run.Execution`: what executing asks of an accord for calls.
* `Machine.Executes`: two machines that run everything alike.
* `Machine.Binds`: two ways of binding names that go alike.
* `agree_block`, `agree_writeIndex`, `agree_firstHolding`, `agree_countBinding`,
  `agree_returned`: the parts of statements.
* `agree_execWith`, `agree_execBinding`: the rule.
* `dispatches_callDefined`: calls, where bodies may run as everything else does.
* `bindingMachine_executes`, `machine_executes`: the machines of the language.
-/

namespace SpanScript

open Run Accord

theorem Store.assignScope_congr {s t : Store} (h : t.scopes = s.scopes)
    (chain : Chain) (x : String) (v : Value) (declared : Option TypeName) :
    t.assignScope chain x v declared = s.assignScope chain x v declared := by
  simp only [Store.assignScope, Store.scopeOf?_congr h, Store.get?_congr h]

namespace Run

/-- An accord in which statements can be executed. -/
structure Execution extends Calling where
  /-- The values that may be returned in a store. -/
  Returns : Store → Value → Prop
  returns {s t v} : Returns s v → Later s t → Returns t v
  returning {s t u v} : Related s t → s.calls ≠ [] → Later s u → Held u v → Returns u v
  calls {s t} : Related s t → t.calls = s.calls
  running {s t name} : Related s t → name ∈ s.calls → material.Name name
  uncalled {s t name} : Related s t → name ∈ s.calls → s.function? name = none →
    Halts (.absent (.function name)) (.absent (.function name))
  setCell {s t ref n old v} : Related s t → (s.tensor ref).cells[n]? = some old →
    old.kind = v.kind → Held s v →
      Later s (s.setCell ref n v) ∧ Related (s.setCell ref n v) (t.setCell ref n v)
  rebind {s t chain x v id} : Related s t → Sees s chain → Held s v →
    s.assignScope chain x v none = .ok id →
      Later s (s.put id x v) ∧ Related (s.put id x v) (t.put id x v)

/-- What a statement may come to: a value that is returned may be. -/
def Execution.Fits (S : Execution) (s : Store) (c : Completion) : Prop :=
  ∀ v, c = .returning v → S.Returns s v

namespace Execution

variable (S : Execution) {s t : Store} {c c' : Completion}

theorem fits_normal (s : Store) : S.Fits s .normal := nofun

variable {S}

theorem Fits.later (h : S.Fits s c) (hs : S.Later s t) : S.Fits t c :=
  fun v hv => S.returns (h v hv) hs

theorem Fits.endOfTurn (h : S.Fits s c) (hc : c.endOfTurn = some c') : S.Fits s c' := by
  cases c with
  | returning v =>
    cases hc
    exact h
  | breaking n =>
    cases hc
    split <;> nofun
  | _ => cases hc

end Execution

/-! ## Assignments and definitions -/

/-- A fault of an assignment tells the name, or a type that the value is not of. -/
theorem names_of_assignScope {s : Store} {chain : Chain} {x : String} {v : Value}
    {declared : Option TypeName} {cause : Fault}
    (h : s.assignScope chain x v declared = .error cause) :
    ∃ y, cause.names = [y] ∧ (y = x ∨ (declared = some y ∧ v.kind.name ≠ y)) := by
  unfold Store.assignScope at h
  split at h
  · split at h
    · cases h
      exact ⟨x, rfl, .inl rfl⟩
    · split at h <;> cases h
      exact ⟨x, rfl, .inl rfl⟩
  · cases declared with
    | none =>
      cases h
      exact ⟨x, rfl, .inl rfl⟩
    | some type =>
      dsimp only at h
      split at h
      · next hk =>
        cases h
        exact ⟨type, rfl, .inr ⟨rfl, hk⟩⟩
      · cases h

section

variable (S : Evaluation) {s : Store} {chain : Chain} {loc : Location} {x : String}
  (h : S.material.Place loc) (hx : S.material.Name x)
include h hx

/-- An assignment, from what it does wherever it binds the name. -/
theorem Evaluation.agree_assign {v : Value} {declared : Option TypeName}
    (hd : ∀ type, declared = some type → v.kind.name = type ∨ S.material.Name type)
    (hput : ∀ {t t' id}, S.Later s t → S.Related t t' →
      t.assignScope chain x v declared = .ok id →
        S.Later t (t.put id x v) ∧ S.Related (t.put id x v) (t'.put id x v)) :
    S.Agree s Any (assign loc chain x v declared) (assign (S.move loc) chain x v declared) := by
  refine agree_get fun t t' ht hr => ?_
  rw [Store.assignScope_congr (S.scopes hr)]
  cases hid : t.assignScope chain x v declared with
  | ok id => exact agreeAt_modify (hput ht hr hid).1 (hput ht hr hid).2
  | error cause =>
    obtain ⟨y, hy, rfl | ⟨htype, hk⟩⟩ := names_of_assignScope hid
    · exact S.agree_telling h hx hy (S.refl t) hr
    · exact S.agree_telling h ((hd y htype).resolve_left hk) hy (S.refl t) hr

/-- A definition, from what it does to the function table. -/
theorem Evaluation.agree_define {params params' : List Param} {returns : TypeName}
    {body body' : Block} (hdefine : ∀ {t t'}, S.Later s t → S.Related t t' →
      Builtin.ofName? x = none →
        S.Later t (t.define x ⟨params, returns, body, chain⟩) ∧
          S.Related (t.define x ⟨params, returns, body, chain⟩)
            (t'.define x ⟨params', returns, body', chain⟩)) :
    S.Agree s Any (Machine.define chain loc x params returns body)
      (Machine.define chain (S.move loc) x params' returns body') := by
  refine agree_ite (fun _ => S.agree_telling h hx rfl) fun hname =>
    agree_modify fun t t' ht hr => hdefine ht hr ?_
  simpa using hname

end

end Run

/-! ## Cells -/

/-- In an accord cells may be written over, by held values of the kinds that they have. -/
def Run.Evaluation.Writes (S : Evaluation) : Prop :=
  ∀ ⦃s t ref n old v⦄, S.Related s t → (s.tensor ref).cells[n]? = some old → old.kind = v.kind →
    S.Held s v → S.Later s (s.setCell ref n v) ∧ S.Related (s.setCell ref n v) (t.setCell ref n v)

namespace Machine

section

variable {S : Evaluation} {m m' : Machine} {s : Store} {chain : Chain} {loc : Location}
  (hwrites : S.Writes)
include hwrites

/-- A cell is written over by a value of the kind it has. -/
theorem agree_overwrite (h : S.material.Place loc) {ref : TensorRef} {n : Nat}
    (hn : Located S ref s n) {v : Value} (hv : S.Held s v) :
    S.Agree s Any
      (do
        let old ← readCell ref n
        if old.kind ≠ v.kind then Run.fail .cellMismatch loc
        else modify fun s => s.setCell ref n v)
      (do
        let old ← readCell ref n
        if old.kind ≠ v.kind then Run.fail .cellMismatch (S.move loc)
        else modify fun s => s.setCell ref n v) := by
  intro t t' ht hr
  -- between the look at the cell and the change of it nothing happens
  refine (agreeAt_readCell hr (hn.later ht)).bind fun old u u' hu hr' hold => ?_
  obtain ⟨rfl, hcell⟩ := hold
  refine agreeAt_ite (fun _ => S.agree_plain h rfl (S.refl u) hr') fun hkind => ?_
  have hset := hwrites hr' hcell (Decidable.not_not.mp hkind) (S.held hv ht)
  exact agreeAt_modify hset.1 hset.2

theorem agree_writeIndex (hm : Evaluates S S.move m m') (hc : S.Sees s chain)
    {target value : Expr} (hs : S.material.stmt (.assignCell loc target value)) :
    S.Agree s Any (m.writeIndex chain loc target value)
      (m'.writeIndex chain (S.move loc) (target.relocate S.move) (value.relocate S.move)) := by
  have h : S.material.Place loc := Material.place_of_stmt hs
  have hvalue : S.material.expr value := S.material.stmt_expr hs (.tail _ (.head _))
  obtain ⟨hbase, hindices⟩ :=
    Material.expr_indexChain (S.material.stmt_expr hs (.head _) : S.material.expr target)
  have hnamed : ¬ target.NamedBase → S.material.Blames .cellOfExpression loc := fun hn =>
    ⟨h, fun x hx => absurd hx List.not_mem_nil, fun _ => ⟨loc, target, value, hs, hn⟩⟩
  unfold writeIndex
  rw [Expr.indexChain_relocate]
  unfold Expr.NamedBase at hnamed
  generalize target.indexChain = root at hbase hindices hnamed
  obtain ⟨e, es⟩ := root
  cases e with
  | name place x =>
    have heval := hm.eval 0 hc hbase
    rw [Expr.relocate] at heval ⊢
    refine heval.bind fun t w ht hw => ?_
    cases w with
    | tns ref =>
      have hct := S.sees hc ht
      refine (agree_cellNumber hm hct h (by decide) hw hindices).bind
        fun u n hu hn => ?_
      -- the value may write to the same tensor
      refine (hm.eval 0 (S.sees hct hu) hvalue).bind fun w v hw hv => ?_
      exact agree_overwrite hwrites h (hn.later hw) hv
    | _ => exact S.agree_plain h rfl
  | _ =>
    rw [Expr.relocate]
    exact S.agree_fail (hnamed nofun)

end

/-! ## Machines -/

/-- Two machines that run everything alike. -/
structure Executes (S : Execution) (m m' : Machine) : Prop
    extends Evaluates S.toEvaluation S.move m m' where
  exec : ∀ n {s chain st}, S.Sees s chain → S.material.stmt st →
    S.Agree s S.Fits (m.execUnder n chain st) (m'.execUnder n chain (st.relocate S.move))

variable {S : Execution} {m m' : Machine} {s : Store} {chain : Chain} {loc : Location}

theorem Executes.under (h : Executes S m m') (n : Nat) : Executes S (m.under n) (m'.under n) :=
  ⟨h.toEvaluates.under n, fun _ => h.exec _⟩

/-- What is done after a statement or a part of it, that does not return. -/
theorem agree_normal {α : Type} {Q : Store → α → Prop} {k k' : Run α} (h : S.Agree s Q k k') :
    S.Agree s S.Fits (k >>= fun _ => pure .normal) (k' >>= fun _ => pure .normal) :=
  h.bind fun _ _ _ _ => agree_pure fun _ _ => S.fits_normal _

section

variable (hm : Executes S m m') (hc : S.Sees s chain)
include hm hc

theorem agree_block {stmts : List Stmt} (hs : ∀ st ∈ stmts, S.material.stmt st) :
    S.Agree s S.Fits (m.block chain stmts) (m'.block chain (stmts.map (Stmt.relocate S.move))) := by
  induction stmts generalizing s with
  | nil => exact agree_pure fun _ _ => S.fits_normal _
  | cons st stmts ih =>
    rw [List.map_cons]
    refine (hm.exec 0 hc (hs st (List.mem_cons_self ..))).bind fun t c ht hfits => ?_
    cases c with
    | normal => exact ih (S.sees hc ht) fun st' h => hs st' (List.mem_cons_of_mem _ h)
    | _ => exact agree_pure fun u hu => hfits.later hu

/-- The statements of a block. -/
theorem agree_statements {b : Block} (hs : ∀ st ∈ b.statements, S.material.stmt st) :
    S.Agree s S.Fits (m.block chain b.statements)
      (m'.block chain (b.relocate S.move).statements) := by
  rw [Block.statements_relocate]
  exact agree_block hm hc hs

/-! ## Choices -/

theorem agree_firstHolding {otherwise : Option Block} {bs : List Branch}
    (hb : ∀ b ∈ bs, S.material.expr b.test ∧ ∀ st ∈ b.block.statements, S.material.stmt st)
    (ho : ∀ b ∈ otherwise, ∀ st ∈ b.statements, S.material.stmt st) :
    S.Agree s S.Fits (m.firstHolding chain otherwise bs)
      (m'.firstHolding chain (otherwise.map (Block.relocate S.move))
        (bs.map (Branch.relocate S.move))) := by
  induction bs generalizing s with
  | nil =>
    cases otherwise with
    | none => exact agree_pure fun _ _ => S.fits_normal _
    | some b => exact agree_statements (hm.under _) hc (ho b rfl)
  | cons b bs ih =>
    obtain ⟨htest, hblock⟩ := hb b (List.mem_cons_self ..)
    rw [List.map_cons, firstHolding, firstHolding, Branch.test_relocate, Branch.block_relocate]
    refine (agree_test (hm.under _).toEvaluates hc htest).bind fun t _ ht _ => ?_
    have hct := S.sees hc ht
    exact agree_ite (fun _ => agree_statements (hm.under _) hct hblock) fun _ =>
      ih hct fun b' h => hb b' (List.mem_cons_of_mem _ h)

/-! ## Counters -/

omit hm hc in
theorem agree_readCounter (h : S.material.Place loc) {counter : String}
    (hx : S.material.Name counter) :
    S.Agree s Any (readCounter chain loc counter) (readCounter chain (S.move loc) counter) := by
  refine agree_read fun t t' _ hr => ?_
  rw [Store.get?_congr (S.scopes hr)]
  cases t.get? chain counter with
  | some v => exact agree_integer h (by decide) v
  | none => exact S.agree_telling h hx rfl

end

/-- Two ways of binding names that go alike. -/
structure Binds (S : Execution) (bind bind' : String → Run Unit → Run Unit) : Prop where
  assign {s chain loc x v declared} : S.Sees s chain → S.material.Place loc →
    S.material.Name x → S.Held s v →
    (∀ type, declared = some type → v.kind.name = type ∨ S.material.Name type) →
    S.Agree s Any (bind x (Run.assign loc chain x v declared))
      (bind' x (Run.assign (S.move loc) chain x v declared))
  define {s chain loc name params returns body} : S.Sees s chain →
    S.material.stmt (.define loc name params returns body) →
    S.Agree s Any (bind name (define chain loc name params returns body))
      (bind' name (define chain (S.move loc) name (params.map (Param.relocate S.move)) returns
        (body.relocate S.move)))

/-- Nothing is left open where names are bound. -/
theorem binds_id
    (hput : ∀ {s t chain x v declared id}, S.Related s t → S.Sees s chain → S.Held s v →
      s.assignScope chain x v declared = .ok id →
        S.Later s (s.put id x v) ∧ S.Related (s.put id x v) (t.put id x v))
    (hdefine : ∀ {s t chain loc name params returns body}, S.Related s t → S.Sees s chain →
      S.material.stmt (.define loc name params returns body) → Builtin.ofName? name = none →
        S.Later s (s.define name ⟨params, returns, body, chain⟩) ∧
          S.Related (s.define name ⟨params, returns, body, chain⟩)
            (t.define name (Function.relocate S.move ⟨params, returns, body, chain⟩))) :
    Binds S (fun _ step => step) fun _ step => step where
  assign hc h hx hv hd := S.agree_assign h hx hd fun hs hr hid =>
    hput hr (S.sees hc hs) (S.held hv hs) hid
  define hc hs := S.agree_define (Material.place_of_stmt hs)
    (Material.name_of_stmt hs (.head _)) fun ht hr hname => hdefine hr (S.sees hc ht) hs hname

section

variable {bind bind' : String → Run Unit → Run Unit} (hb : Binds S bind bind')
  (hm : Executes S m m') (hc : S.Sees s chain)
include hb hm hc

theorem agree_assignBinding (h : S.material.Place loc) {x : String} (hx : S.material.Name x)
    {value : Expr} (hv : S.material.expr value) {declared : Option TypeName}
    (hd : ∀ type ∈ declared, S.material.Name type) :
    S.Agree s Any (m.assignBinding bind chain loc x value declared)
      (m'.assignBinding bind' chain (S.move loc) x (value.relocate S.move) declared) := by
  refine agree_read fun t t' ht hr => ?_
  rw [S.functions hr, Option.isSome_map]
  refine agree_ite (fun _ => S.agree_telling h hx rfl) fun _ => ?_
  have hct := S.sees hc ht
  exact ((hm.under _).eval 0 hct hv).bind fun u v hu hheld =>
    hb.assign (S.sees hct hu) h hx hheld fun type ht => .inr (hd type ht)

theorem agree_countBinding (turns : Nat) (h : S.material.Place loc) {counter : String}
    (hx : S.material.Name counter) {limit : Expr} (hl : S.material.expr limit) {body : Block}
    (hbody : ∀ st ∈ body.statements, S.material.stmt st) :
    S.Agree s S.Fits (m.countBinding bind turns chain loc counter limit body)
      (m'.countBinding bind' turns chain (S.move loc) counter (limit.relocate S.move)
        (body.relocate S.move)) := by
  refine ((hm.under _).eval 0 hc hl).bind fun t v ht _ =>
    (agree_integer h (by decide) v).bind fun u n hu _ => ?_
  have hcu := S.sees (S.sees hc ht) hu
  refine (hb.assign hcu h hx (S.plain (v := .int 1) nofun)
    fun type ht => .inl (Option.some.inj ht)).bind fun w _ hw _ => ?_
  have hcw := S.sees hcu hw
  have hrecount (k : Int) : S.Agree w Any (Run.assign loc chain counter (.int k) none)
      (Run.assign (S.move loc) chain counter (.int k) none) :=
    S.agree_assign h hx nofun fun hs hr hid => S.rebind hr (S.sees hcw hs) (S.plain nofun) hid
  exact agree_countLoop (F := S.Fits) Execution.Fits.later S.fits_normal Execution.Fits.endOfTurn
    S.unfinished (agree_statements (hm.under _) hcw hbody) (agree_readCounter h hx) hrecount
    turns 1

/-! ## Leaving -/

omit hb in
theorem agree_breakCount (h : S.material.Place loc) {count : Expr}
    (he : S.material.expr count) :
    S.Agree s Any (m.breakCount chain loc count)
      (m'.breakCount chain (S.move loc) (count.relocate S.move)) :=
  ((hm.under _).eval 0 hc he).bind fun _ v _ _ =>
    (agree_integer h (by decide) v).bind fun _ n _ _ =>
      agree_ite (fun _ => S.agree_plain h rfl) fun _ => agree_any n

omit hb in
theorem agree_returned (h : S.material.Place loc) {value : Option Expr}
    (hv : ∀ e ∈ value, S.material.expr e) :
    S.Agree s S.Returns (m.returned chain loc value)
      (m'.returned chain (S.move loc) (value.map (Expr.relocate S.move))) := by
  refine agree_read fun t t' ht hr => ?_
  rw [S.calls hr]
  cases hcalls : t.calls with
  | nil => exact S.agree_plain h rfl
  | cons name calls =>
    have hname : name ∈ t.calls := hcalls ▸ List.mem_cons_self ..
    -- the calls are the same after the value has been found
    have hreturns {k k' : Run Value} (h : S.Agree t S.Held k k') : S.Agree t S.Returns k k' :=
      h.imp fun u v hu hheld => S.returning hr (List.ne_nil_of_mem hname) hu hheld
    cases value with
    | some e => exact hreturns ((hm.under _).eval 0 (S.sees hc ht) (hv e rfl))
    | none =>
      simp only [Option.map_none, S.functions hr]
      cases hf : t.function? name with
      | some F =>
        have hzero := agree_zeroOf (s := t) h (S.running hr hname) F
        rw [S.carries] at hzero
        exact hreturns hzero
      | none => exact agree_throw (S.uncalled hr hname hf)

/-! ## Statements -/

/-- **The rule of statements goes alike on both sides.** -/
theorem agree_execWith {returned returned' : Location → Option Expr → Run Value}
    (hr : ∀ loc value, S.material.stmt (.returnValue loc value) →
      S.Agree s S.Returns (returned loc value)
        (returned' (S.move loc) (value.map (Expr.relocate S.move))))
    (turns : Nat) {st : Stmt} (hs : S.material.stmt st) :
    S.Agree s S.Fits (m.execWith bind returned turns chain st)
      (m'.execWith bind' returned' turns chain (st.relocate S.move)) := by
  have h : S.material.Place st.location := Material.place_of_stmt hs
  have hname : ∀ x ∈ st.names, S.material.Name x := fun x hx => Material.name_of_stmt hs hx
  have hexpr : ∀ e ∈ st.exprs, S.material.expr e := fun e he => S.material.stmt_expr hs he
  have hpart : ∀ st' ∈ st.parts, S.material.stmt st' := fun st' h => S.material.stmt_part hs h
  cases st with
  | assign loc x value declared =>
    rw [Stmt.relocate]
    refine agree_normal (agree_assignBinding hb hm hc h (hname x (.head _))
      (hexpr value (.head _)) fun type ht => ?_)
    exact hname type (List.mem_cons_of_mem _ (Option.mem_toList.mpr ht))
  | assignCell loc target value =>
    rw [Stmt.relocate]
    exact agree_normal (agree_writeIndex (fun _ _ _ _ _ _ => S.setCell)
      (hm.under _).toEvaluates hc hs)
  | evaluate e =>
    rw [Stmt.relocate]
    exact agree_normal ((hm.under _).eval 0 hc (hexpr e (.head _)))
  | ifElse loc branches otherwise =>
    rw [Stmt.relocate_ifElse]
    refine agree_firstHolding hm hc (fun b hb => ⟨?_, fun st' hst => ?_⟩) fun b hb st' hst => ?_
    · exact hexpr _ (List.mem_map_of_mem hb)
    · exact hpart st' (List.mem_append_left _ (List.mem_flatMap.mpr ⟨b, hb, hst⟩))
    · exact hpart st' (List.mem_append_right _
        (List.mem_flatMap.mpr ⟨b, Option.mem_toList.mpr hb, hst⟩))
  | whileLoop loc test body =>
    rw [Stmt.relocate]
    exact agree_whileLoop (F := S.Fits) Execution.Fits.later S.fits_normal
      Execution.Fits.endOfTurn S.unfinished
      (agree_test (hm.under _).toEvaluates hc (hexpr test (.head _)))
      (agree_statements (hm.under _) hc hpart) turns
  | forLoop loc counter limit body =>
    rw [Stmt.relocate]
    exact agree_countBinding hb hm hc turns h (hname counter (.head _)) (hexpr limit (.head _))
      hpart
  | define loc name params returns body =>
    rw [Stmt.relocate]
    exact agree_normal (hb.define hc hs)
  | returnValue loc value =>
    rw [Stmt.relocate]
    exact (hr loc value hs).bind fun t v _ hv => agree_pure fun u hu x hx =>
      Completion.returning.inj hx ▸ S.returns hv hu
  | breakLoops loc count =>
    rw [Stmt.relocate]
    exact (agree_breakCount hm hc h (hexpr count (.head _))).bind fun _ n _ _ =>
      agree_pure fun _ _ => nofun
  | continueLoop loc =>
    rw [Stmt.relocate]
    exact agree_pure fun _ _ => nofun

/-- The same with what a return gives as in the language. -/
theorem agree_execBinding (turns : Nat) {st : Stmt} (hs : S.material.stmt st) :
    S.Agree s S.Fits (m.execBinding bind turns chain st)
      (m'.execBinding bind' turns chain (st.relocate S.move)) := by
  refine agree_execWith hb hm hc (fun loc value hv => ?_) turns hs
  exact agree_returned hm hc (Material.place_of_stmt hv) fun e he =>
    S.material.stmt_expr hv (Option.mem_toList.mpr he)

end

end Machine

/-! ## Calls -/

/-- In an accord for execution bodies of functions may run as everything else does: with one
more running call the stores are related as before, and the chains are seen, and a value that
a body returns is held when the call has ended. -/
structure Run.Execution.Nests (S : Execution) : Prop where
  home : S.home = S.move
  push {s t u v name F} : S.Related s t → s.function? name = some F → S.material.Name name →
    S.Later s u → S.Related u v → S.Related (u.calling name) (v.calling name)
  sees {s chain} (name : String) : S.Sees s chain → S.Sees (s.calling name) chain
  hosts name : S.Hosts S.toAccord name
  held {s v} : S.Returns s v → S.Held s.called v

namespace Machine

variable {S : Execution} {m m' : Machine}

theorem dispatches_callDefined (hS : S.Nests) (hm : Executes S m m') :
    Dispatches S.toEvaluation m.callDefined m'.callDefined := by
  intro s t loc name args F given hst he hF hg
  have hname : S.material.Name name := Material.name_of_expr he (.head _)
  have hbody {st : Stmt} := (S.defined hst hF).body (s := st)
  have hhome : Evaluates S.toEvaluation S.home m m' := hS.home ▸ hm.toEvaluates
  rw [← S.carries, ← callDefinedBy_block, ← callDefinedBy_block]
  refine agreeAt_callDefinedBy (Q := S.Fits) (Material.place_of_expr he) hhome (hS.hosts name)
    hst hname hF hg (fun {chain u v} hc hsu huv => ?_) fun w v hv => hS.held (hv v rfl)
  rw [hS.home]
  exact agree_statements (hm.under _) (hS.sees name hc) (fun st => hbody) (S.refl _)
    (hS.push hst hF hname hsu huv)

/-- **The machines of the language run everything alike**, with what is done to bind names left
open.  The one may have more levels than the other where going too deep is excepted. -/
theorem bindingMachine_executes (hS : S.Nests) {bind bind' : String → Run Unit → Run Unit}
    (hb : Binds S bind bind') (turns : Nat) : ∀ {levels levels' : Nat},
      Reaches S.Excepted levels levels' →
      Executes S (bindingMachine bind turns levels) (bindingMachine bind' turns levels') := by
  intro levels
  induction levels with
  | zero =>
    intro levels' hl
    by_cases hX : S.Excepted .tooDeep
    · exact ⟨⟨⟨Nat.zero_le _, fun h => absurd hX h⟩, fun _ _ _ _ _ _ => agree_excepted hX _⟩,
        fun _ _ _ _ _ _ => agree_excepted hX _⟩
    · obtain rfl := hl.eq hX
      exact ⟨⟨.refl _ _, fun _ _ _ _ _ _ => agree_throw S.tooDeep⟩,
        fun _ _ _ _ _ _ => agree_throw S.tooDeep⟩
  | succ levels ih =>
    intro levels' hl
    obtain ⟨levels', rfl⟩ : ∃ n, levels' = n + 1 := ⟨levels' - 1, by have := hl.le; omega⟩
    have hl' : Reaches S.Excepted levels levels' :=
      ⟨Nat.le_of_succ_le_succ hl.le, fun hX => Nat.succ.inj (hl.eq hX)⟩
    have hm := ih hl'
    refine ⟨⟨hl', fun n s chain e hc he => ?_⟩, fun n s chain st hc hs => ?_⟩
    · cases n with
      | zero =>
        have h := agree_evalBy hm.toEvaluates hc (dispatches_callDefined hS hm) he
        rw [evalBy_callDefined, evalBy_callDefined] at h
        exact h
      | succ n => exact hm.eval n hc he
    · cases n with
      | zero => exact agree_execBinding hb hm hc turns hs
      | succ n => exact hm.exec n hc hs

theorem machine_executes (hS : S.Nests)
    (hb : Binds S (fun _ step => step) fun _ step => step) (turns : Nat) {levels levels' : Nat}
    (hl : Reaches S.Excepted levels levels') :
    Executes S (machine turns levels) (machine turns levels') := by
  rw [← bindingMachine_id, ← bindingMachine_id]
  exact bindingMachine_executes hS hb turns hl

/-! ## Places that stay -/

section

variable (hmove : S.move = id) {s : Store} {chain : Chain}
include hmove

/-- Two machines that run everything alike, at the same places. -/
theorem executes_of_id (levels : Reaches S.Excepted m.levels m'.levels)
    (eval : ∀ n {s chain e}, S.Sees s chain → S.material.expr e →
      S.Agree s S.Held (m.evalUnder n chain e) (m'.evalUnder n chain e))
    (exec : ∀ n {s chain st}, S.Sees s chain → S.material.stmt st →
      S.Agree s S.Fits (m.execUnder n chain st) (m'.execUnder n chain st)) :
    Executes S m m' where
  levels := levels
  eval n _ _ e hc he := by
    rw [hmove, e.relocate_id]
    exact eval n hc he
  exec n _ _ st hc hs := by
    rw [hmove, st.relocate_id]
    exact exec n hc hs

/-- Two ways of binding names that go alike, at the same places. -/
theorem binds_of_id {bind bind' : String → Run Unit → Run Unit}
    (assign : ∀ {s chain} loc x v declared, S.Sees s chain → S.Held s v →
      S.Agree s Any (bind x (Run.assign loc chain x v declared))
        (bind' x (Run.assign loc chain x v declared)))
    (define : ∀ {s chain} loc name params returns body, S.Sees s chain →
      S.material.stmt (.define loc name params returns body) →
      S.Agree s Any (bind name (define chain loc name params returns body))
        (bind' name (Machine.define chain loc name params returns body))) : Binds S bind bind' where
  assign hc _ _ hv _ := by
    rw [hmove]
    exact assign _ _ _ _ hc hv
  define {s chain loc name params returns body} hc hs := by
    rw [hmove, body.relocate_id, funext Param.relocate_id, List.map_id']
    exact define _ _ _ _ _ hc hs

variable (hm : Executes S m m') (hc : S.Sees s chain)
include hm hc

theorem Executes.eval_id (n : Nat) {e : Expr} (he : S.material.expr e) :
    S.Agree s S.Held (m.evalUnder n chain e) (m'.evalUnder n chain e) := by
  have h := hm.eval n hc he
  rwa [hmove, e.relocate_id] at h

theorem Executes.exec_id (n : Nat) {st : Stmt} (hs : S.material.stmt st) :
    S.Agree s S.Fits (m.execUnder n chain st) (m'.execUnder n chain st) := by
  have h := hm.exec n hc hs
  rwa [hmove, st.relocate_id] at h

theorem agree_test_id {e : Expr} (he : S.material.expr e) :
    S.Agree s Any (m.test chain e) (m'.test chain e) := by
  have h := agree_test hm.toEvaluates hc he
  rwa [hmove, e.relocate_id] at h

theorem agree_block_id {stmts : List Stmt} (hs : ∀ st ∈ stmts, S.material.stmt st) :
    S.Agree s S.Fits (m.block chain stmts) (m'.block chain stmts) := by
  have h := agree_block hm hc hs
  rwa [hmove, List.map_congr_left fun st _ => st.relocate_id, List.map_id'] at h

theorem agree_returned_id {loc : Location} {value : Option Expr}
    (hs : S.material.stmt (.returnValue loc value)) :
    S.Agree s S.Returns (m.returned chain loc value) (m'.returned chain loc value) := by
  have h := agree_returned hm hc (Material.place_of_stmt hs) fun e he =>
    S.material.stmt_expr hs (Option.mem_toList.mpr he)
  rwa [hmove, funext Expr.relocate_id, Option.map_id'] at h

theorem agree_execWith_id {bind bind' : String → Run Unit → Run Unit} (hb : Binds S bind bind')
    {returned returned' : Location → Option Expr → Run Value}
    (hr : ∀ loc value, S.material.stmt (.returnValue loc value) →
      S.Agree s S.Returns (returned loc value) (returned' loc value))
    (turns : Nat) {st : Stmt} (hs : S.material.stmt st) :
    S.Agree s S.Fits (m.execWith bind returned turns chain st)
      (m'.execWith bind' returned' turns chain st) := by
  have hr' : ∀ loc value, S.material.stmt (.returnValue loc value) → S.Agree s S.Returns
      (returned loc value) (returned' (S.move loc) (value.map (Expr.relocate S.move))) := by
    rw [hmove, funext Expr.relocate_id]
    simpa only [Option.map_id', id] using hr
  have h := agree_execWith hb hm hc hr' turns hs
  rwa [hmove, st.relocate_id] at h

theorem agree_execBinding_id {bind bind' : String → Run Unit → Run Unit}
    (hb : Binds S bind bind') (turns : Nat) {st : Stmt} (hs : S.material.stmt st) :
    S.Agree s S.Fits (m.execBinding bind turns chain st) (m'.execBinding bind' turns chain st) :=
  agree_execWith_id hmove hm hc hb (fun _ _ => agree_returned_id hmove hm hc) turns hs

end

end Machine

end SpanScript
