import SpanScript.Proofs.Eval.Rules

/-!
# Calls of functions

A call of a function binds its parameters in a new scope, runs its body with its name among
those of the running calls, and makes a value of how the body ends.  In an accord for calls
all of this goes alike on both sides.

While parameters are bound, each store is later than the one the call was made in, and need
not be later than the one before it: a function may have two parameters of one name, and the
second value that is bound need not be of the kind of the first.  So the stores are compared
with that of the call, by `Calling.since`.  While a body runs, the stores may be related in
a way of their own, since one more call is running: `Calling.Hosts` says what this takes.

* `Run.Calling`: what calling asks of an accord for evaluation.
* `agree_bindParams`, `agree_enter`: parameters.
* `agree_during`, `agree_callDefinedBy`: the body, and the call.
-/

namespace SpanScript

open Run Accord

def Function.relocate (f : Location → Location) (F : Function) : Function :=
  { F with params := F.params.map (Param.relocate f), body := F.body.relocate f }

theorem Function.relocate_id (F : Function) : F.relocate id = F := by
  obtain ⟨params, returns, body, closure⟩ := F
  have hparams : params.map (Param.relocate id) = params := by
    rw [List.map_congr_left fun p _ => p.relocate_id, List.map_id']
  rw [Function.relocate, hparams, body.relocate_id]

namespace Store

/-- The store with one more running call. -/
def calling (name : String) (s : Store) : Store := { s with calls := name :: s.calls }

/-- The store with the innermost call ended. -/
def called (s : Store) : Store := { s with calls := s.calls.drop 1 }

end Store

/-- A type's zero is no tensor. -/
theorem Value.kind_zero? {type : String} {v : Value}
    (h : Value.zero? type = some v) : v.kind ≠ .tns := by
  unfold Value.zero? at h
  split at h
  · cases h; nofun
  · split at h
    · cases h; nofun
    · split at h
      · cases h; nofun
      · cases h

namespace Run

/-- An accord in which functions of the program can be called.  Their places are moved by
`home` on the other side. -/
structure Calling extends Evaluation where
  home : Location → Location
  carries F : F.relocate home = carry F
  defined {s t name F} : Related s t → s.function? name = some F → material.Defines name F
  addScope {s t name F} : Related s t → s.function? name = some F →
    Later s s.addScope ∧ Related s.addScope t.addScope ∧
      Sees s.addScope (s.scopes.size :: F.closure)
  param {s t u v closure w} : Related s t → Later s u → Related u v →
    Sees u (s.scopes.size :: closure) → Held u w → ∀ x,
      Later s (u.put s.scopes.size x w) ∧
        Related (u.put s.scopes.size x w) (v.put s.scopes.size x w) ∧
          Sees (u.put s.scopes.size x w) (s.scopes.size :: closure)

namespace Calling

variable {α : Type} (S : Calling) {s t u v : Store} {chain : Chain} {Q : Store → α → Prop}
  {m m' : Run α}

/-- The accord of runs all of whose stores are later than `s` and see a chain. -/
def since (s : Store) (chain : Chain) : Accord where
  Related u v := S.Later s u ∧ S.Related u v ∧ S.Sees u chain
  Later _ _ := True
  Halts := S.Halts
  Excepted := S.Excepted
  refl _ := trivial
  trans _ _ := trivial

variable {S}

/-- Runs that go alike from two stores also do so when they are compared with an earlier one. -/
theorem agreeAt_since (h : S.AgreeAt Q m m' u v) (hu : (S.since s chain).Related u v) :
    (S.since s chain).AgreeAt Q m m' u v := by
  unfold AgreeAt at h ⊢
  generalize m.run.run u = x at h ⊢
  generalize m'.run.run v = y at h ⊢
  cases h with
  | answer hw hr ha => exact .answer trivial ⟨S.trans hu.1 hw, hr, S.sees hu.2.2 hw⟩ ha
  | halt hw hr hh => exact .halt trivial ⟨S.trans hu.1 hw, hr, S.sees hu.2.2 hw⟩ hh
  | excepted hx => exact .excepted hx

/-- Compared with the store they began in, they go alike. -/
theorem agreeAt_of_since (h : (S.since s chain).AgreeAt Q m m' s t) : S.AgreeAt Q m m' s t := by
  unfold AgreeAt at h ⊢
  generalize m.run.run s = x at h ⊢
  generalize m'.run.run t = y at h ⊢
  cases h with
  | answer _ hr ha => exact .answer hr.1 hr.2.1 ha
  | halt _ hr hh => exact .halt hr.1 hr.2.1 hh
  | excepted hx => exact .excepted hx

/-- Bodies of a function may run in an accord of their own, with one more running call. -/
structure Hosts (S : Calling) (B : Accord) (name : String) : Prop where
  pop : ∀ {s t u v}, S.Related s t → B.Later (s.calling name) u → B.Related u v →
    S.Later s u.called ∧ S.Related u.called v.called
  halts : ∀ {h h'}, B.Halts h h' → S.Halts h h'
  excepted : ∀ {h}, B.Excepted h → S.Excepted h

end Calling

end Run

namespace Machine

open Calling

variable {S : Calling} {m m' : Machine} {s t u v : Store} {loc : Location} {closure : Chain}

/-! ## Parameters -/

theorem agreeAt_bindParam (hst : S.Related s t)
    (hu : (S.since s (s.scopes.size :: closure)).Related u v) (h : S.material.Place loc) {p : Param}
    (hp : S.material.Name p.name ∧ S.material.Name p.type) {w : Value} (hw : S.Held u w) :
    (S.since s (s.scopes.size :: closure)).AgreeAt Any (bindParam loc s.scopes.size p w)
      (bindParam (S.move loc) s.scopes.size (p.relocate S.home) w) u v := by
  refine agreeAt_ite (fun _ => ?_) fun _ => agreeAt_modify trivial ?_
  · exact agreeAt_since (S.agree_telling_pair h hp.1 hp.2 rfl (S.refl u) hu.2.1) hu
  · obtain ⟨hsu, huv, hsees⟩ := hu
    exact S.param hst hsu huv hsees hw p.name

/-- **Parameters are bound alike**, each in a scope that the caller does not have. -/
theorem agreeAt_bindParams (hst : S.Related s t)
    (hm : Evaluates S.toEvaluation S.home m m') (h : S.material.Place loc) {name : String}
    (hname : S.material.Name name) {ps : List Param}
    (hp : ∀ p ∈ ps, S.material.Name p.name ∧ S.material.Name p.type)
    (hd : ∀ e ∈ ps.filterMap Param.default, S.material.expr e) :
    ∀ {vs : List Value} {named : List (String × Value)} {u v : Store},
      (∀ w ∈ vs, S.Held s w) → (∀ b ∈ named, S.Held s b.2 ∧ S.material.Name b.1) →
      (S.since s (s.scopes.size :: closure)).Related u v →
      (S.since s (s.scopes.size :: closure)).AgreeAt
        (fun _ left => ∀ b ∈ left, S.material.Name b.1)
        (m.bindParams loc name s.scopes.size (s.scopes.size :: closure) ps vs named)
        (m'.bindParams (S.move loc) name s.scopes.size (s.scopes.size :: closure)
          (ps.map (Param.relocate S.home)) vs named) u v := by
  induction ps with
  | nil => exact fun _ hnamed hu => .answer trivial hu fun b hb => (hnamed b hb).2
  | cons p ps ih =>
    intro vs named u v hvs hnamed hu
    have hpn := hp p (List.mem_cons_self ..)
    have hps : ∀ q ∈ ps, S.material.Name q.name ∧ S.material.Name q.type := fun q hq =>
      hp q (List.mem_cons_of_mem _ hq)
    have hds : ∀ e ∈ ps.filterMap Param.default, S.material.expr e := by
      intro e he
      obtain ⟨q, hq, hqe⟩ := List.mem_filterMap.mp he
      exact hd e (List.mem_filterMap.mpr ⟨q, List.mem_cons_of_mem _ hq, hqe⟩)
    cases vs with
    | cons w vs =>
      have hw := S.held (hvs w (List.mem_cons_self ..)) hu.1
      refine (agreeAt_bindParam hst hu h hpn hw).bind fun _ u v _ hu _ => ?_
      exact ih hps hds (fun w' h => hvs w' (List.mem_cons_of_mem _ h)) hnamed hu
    | nil =>
      have hpname : (p.relocate S.home).name = p.name := rfl
      rw [List.map_cons, bindParams, bindParams, hpname]
      cases hl : named.lookup p.name with
      | some w =>
        obtain ⟨l, r, hlr, -⟩ := List.lookup_eq_some_iff.mp hl
        have hw : S.Held s w := (hnamed (p.name, w) (hlr ▸ List.mem_append_right l (.head _))).1
        refine (agreeAt_bindParam hst hu h hpn (S.held hw hu.1)).bind fun _ u v _ hu _ => ?_
        exact ih hps hds nofun (fun b hb => hnamed b (List.mem_filter.mp hb).1) hu
      | none =>
        obtain ⟨type, x, default⟩ := p
        cases default with
        | none =>
          exact agreeAt_since (S.agree_telling_pair h hpn.1 hname rfl (S.refl u) hu.2.1) hu
        | some e =>
          -- the default sees the scope of the call, with the parameters before it
          have he : S.material.expr e := hd e (List.mem_filterMap.mpr ⟨_, .head _, rfl⟩)
          have heval := (hm.under Weight.body).eval 0 hu.2.2 he (S.refl u) hu.2.1
          refine (agreeAt_since heval hu).bind fun w u v _ hu hw => ?_
          exact (agreeAt_bindParam (p := ⟨type, x, some e⟩) hst hu h hpn hw).bind
            fun _ u v _ hu _ => ih hps hds nofun hnamed hu

/-- **The scopes of a call are entered alike.** -/
theorem agreeAt_enter (hm : Evaluates S.toEvaluation S.home m m') (hst : S.Related s t)
    (h : S.material.Place loc) {name : String} (hname : S.material.Name name) {F : Function}
    (hF : s.function? name = some F) {given : Arguments} (hg : Given S.toEvaluation s given) :
    S.AgreeAt S.Sees (m.enter loc name F given)
      (m'.enter (S.move loc) name (F.relocate S.home) given) s t := by
  have hdefined := S.defined hst hF
  unfold enter
  simp only [Function.relocate, List.length_map]
  refine agreeAt_ite (fun _ => S.agree_telling h hname rfl (S.refl s) hst) fun _ => ?_
  have hscope : (S.since s (s.scopes.size :: F.closure)).AgreeAt (fun _ id => id = s.scopes.size)
      newScope newScope s t := by
    unfold AgreeAt newScope
    rw [run_get, run_get, S.scopes hst]
    exact .answer trivial (S.addScope hst hF) rfl
  refine agreeAt_of_since (AgreeAt.bind (R := S.Sees) hscope fun id u v _ hu hid => ?_)
  subst hid
  refine (agreeAt_bindParams hst hm h hname (fun _ => hdefined.param)
    (fun _ => hdefined.default) hg.1 hg.2 hu).bind fun left u v _ hu hleft => ?_
  refine agreeAt_ite (fun _ => .answer trivial hu hu.2.2) fun _ => ?_
  have hblames : S.material.Blames
      (.unexpectedKeywords ((left.map (·.1)).mergeSort fun a b => a ≤ b)) loc := by
    refine ⟨h, fun y hy => .inl ?_, nofun⟩
    obtain ⟨b, hb, rfl⟩ := List.mem_map.mp ((List.mergeSort_perm _ _).mem_iff.mp hy)
    exact hleft b hb
  exact agreeAt_since (S.agree_fail hblames (S.refl u) hu.2.1) hu

/-! ## Bodies -/

theorem run_during {α : Type} (name : String) (body : Run α) (s : Store) :
    (during name body).run.run s =
      ((body.run.run (s.calling name)).1, (body.run.run (s.calling name)).2.called) := by
  unfold during
  rw [run_bind]
  refine (run_tryCatch _ _ _).trans ?_
  rw [run_bind]
  unfold Store.calling Store.called
  rcases body.run.run { s with calls := name :: s.calls } with ⟨_ | a, t⟩ <;> rfl

section

variable {B : Accord} {name : String} (hB : S.Hosts B name)
include hB

/-- **The body of a call runs alike**, if it does so with one more call running. -/
theorem agreeAt_during {α : Type} {Q R : Store → α → Prop} {body body' : Run α}
    (huv : S.Related u v) (h : B.AgreeAt Q body body' (u.calling name) (v.calling name))
    (hq : ∀ w a, Q w a → R w.called a) :
    S.AgreeAt R (during name body) (during name body') u v := by
  unfold AgreeAt at h ⊢
  rw [run_during, run_during]
  generalize body.run.run (u.calling name) = x at h ⊢
  generalize body'.run.run (v.calling name) = y at h ⊢
  cases h with
  | answer hw hr ha => exact .answer (hB.pop huv hw hr).1 (hB.pop huv hw hr).2 (hq _ _ ha)
  | halt hw hr hh => exact .halt (hB.pop huv hw hr).1 (hB.pop huv hw hr).2 (hB.halts hh)
  | excepted hx => exact .excepted (hB.excepted hx)

end

/-! ## Ends of calls -/

section

variable (h : S.material.Place loc)
include h

theorem agree_zeroOf {name : String} (hname : S.material.Name name) (F : Function) :
    S.Agree s S.Held (zeroOf loc name F) (zeroOf (S.move loc) name (F.relocate S.home)) := by
  unfold zeroOf
  dsimp only [Function.relocate]
  cases hv : Value.zero? F.returns with
  | some v => exact S.agree_value (Value.kind_zero? hv)
  | none => exact S.agree_telling h hname rfl

theorem agree_escapedBreak (count : Int) :
    S.Agree s S.Held (escapedBreak count loc) (escapedBreak count (S.move loc)) := by
  unfold escapedBreak
  rcases settles_integerText count with ⟨a, hr⟩ | hr | hr <;> rw [hr]
  · exact S.agree_plain h rfl
  · exact agree_throw S.tooDeep
  · exact agree_throw S.printTooLong

theorem agree_endOfCall {name : String} (hname : S.material.Name name) {F : Function}
    (hreturns : S.material.Name F.returns) {c : Completion}
    (hc : ∀ v, c = .returning v → S.Held s v) :
    S.Agree s S.Held (endOfCall loc name F c)
      (endOfCall (S.move loc) name (F.relocate S.home) c) := by
  cases c with
  | normal => exact agree_zeroOf h hname F
  | returning v =>
    exact agree_ite (fun _ => S.agree_telling_pair h hname hreturns rfl) fun _ =>
      agree_pure fun _ ht => S.held (hc v rfl) ht
  | breaking n => exact agree_escapedBreak h n
  | continuing => exact S.agree_plain h rfl

/-- **A call of a function goes alike on both sides**, from what is done to run its body. -/
theorem agreeAt_callDefinedBy (hm : Evaluates S.toEvaluation S.home m m') {B : Accord}
    {name : String} {F : Function} (hB : S.Hosts B name) {Q : Store → Completion → Prop}
    {body body' : Chain → List Stmt → Run Completion} (hst : S.Related s t)
    (hname : S.material.Name name) (hF : s.function? name = some F) {given : Arguments}
    (hg : Given S.toEvaluation s given)
    (hbody : ∀ {chain u v}, S.Sees u chain → S.Later s u → S.Related u v →
      B.AgreeAt Q (body chain F.body.statements)
        (body' chain (F.relocate S.home).body.statements) (u.calling name) (v.calling name))
    (hq : ∀ w v, Q w (.returning v) → S.Held w.called v) :
    S.AgreeAt S.Held (m.callDefinedBy body loc name F given)
      (m'.callDefinedBy body' (S.move loc) name (F.relocate S.home) given) s t := by
  rw [callDefinedBy_eq, callDefinedBy_eq]
  refine (agreeAt_enter hm hst h hname hF hg).bind fun chain u v hu huv hc => ?_
  have hrun : S.AgreeAt (fun w c => ∀ x, c = .returning x → S.Held w x)
      (during name (body chain F.body.statements))
      (during name (body' chain (F.relocate S.home).body.statements)) u v :=
    agreeAt_during hB huv (hbody hc hu huv) fun w c hw x hx => hq w x (hx ▸ hw)
  refine hrun.bind fun c w x _ hwx hvalue => ?_
  exact agree_endOfCall h hname (S.defined hst hF).returns hvalue (S.refl w) hwx

end

end Machine

end SpanScript
