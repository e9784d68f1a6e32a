import SpanScript.Proofs.Eval.Tracking
import SpanScript.Proofs.Session.Reachable

/-!
# Calls are lexically scoped

A function keeps the chain of scopes it was defined in: that scope and those which its
parent links lead to.  A call sees a new scope in front of that chain, so it can write to
the scopes that functions of the table keep, and to scopes that are made while it runs,
and to nothing else.

The invariant is on the whole store.  Since a call began there are no fewer scopes; what
the functions of the table keep by now was kept by a function then, or is new; and the
scopes that are neither are as they were.  A chain of such scopes is all that the body
sees, and the function definitions it runs keep only such chains.

* `Store.Captures`, `Store.KeepsUncaptured`: scopes that functions keep, and the frame of
  a call.
* `Store.Confined`: what a call has made of its store; `invariant_confined`: every change of
  the store keeps it.
* `callsGuardedMachine`: the machines of the language, with every call guarded.
* `calls_keep_uncaptured`: calls write to no scope but those.
-/

namespace SpanScript

namespace Store

/-- Some function of the table was defined in a scope or below it. -/
def Captures (s : Store) (id : Nat) : Prop := ∃ f ∈ s.functions, id ∈ f.2.closure

instance (s : Store) (id : Nat) : Decidable (s.Captures id) :=
  inferInstanceAs (Decidable (∃ f ∈ s.functions, id ∈ f.2.closure))

/-- Every scope that there was, and that no function of the table was defined in or below,
has the bindings it had. -/
def KeepsUncaptured (s t : Store) : Prop :=
  ∀ id < s.scopes.size, ¬ s.Captures id → t.scope id = s.scope id

noncomputable instance : DecidableRel KeepsUncaptured := fun _ _ => Classical.propDecidable _

/-- A call that begins in a store may write to a scope: it is captured, or new. -/
def MayReach (s : Store) (id : Nat) : Prop := s.Captures id ∨ s.scopes.size ≤ id

/-- What a call that began in `s` has made of it. -/
structure Confined (s t : Store) : Prop where
  size : s.scopes.size ≤ t.scopes.size
  captured : ∀ id, t.Captures id → s.MayReach id
  kept : ∀ id, ¬ s.MayReach id → t.scope id = s.scope id

variable {s t : Store}

theorem Confined.refl (s : Store) : s.Confined s :=
  ⟨Nat.le_refl _, fun _ h => .inl h, fun _ _ => rfl⟩

theorem Confined.keepsUncaptured (h : s.Confined t) : s.KeepsUncaptured t := by
  intro id hid hc
  refine h.kept id ?_
  rintro (h | h)
  · exact hc h
  · omega

theorem captures_of_function? {name : String} {f : Function} (hf : s.function? name = some f)
    {id : Nat} (hid : id ∈ f.closure) : s.Captures id := by
  obtain ⟨l, r, hl, -⟩ := List.lookup_eq_some_iff.mp hf
  exact ⟨(name, f), hl ▸ List.mem_append_right l (List.mem_cons_self ..), hid⟩

theorem scope_remove_of_ne (s : Store) {id id' : Nat} (h : id ≠ id') (x : String) :
    (s.remove id x).scope id' = s.scope id' := by
  rw [scope, remove, Array.getElem?_modify, if_neg h, scope]

/-! ## Changes of a confined store -/

theorem Confined.put (h : s.Confined t) {id : Nat} (hid : s.MayReach id) (x : String) (v : Value) :
    s.Confined (t.put id x v) where
  size := (t.size_put id x v).symm ▸ h.size
  captured := h.captured
  kept id' hid' := by
    have hne : id ≠ id' := by
      rintro rfl
      exact hid' hid
    rw [scope_put_of_ne t hne, h.kept id' hid']

theorem Confined.remove (h : s.Confined t) {id : Nat} (hid : s.MayReach id) (x : String) :
    s.Confined (t.remove id x) where
  size := (t.size_remove id x).symm ▸ h.size
  captured := h.captured
  kept id' hid' := by
    have hne : id ≠ id' := by
      rintro rfl
      exact hid' hid
    rw [scope_remove_of_ne t hne, h.kept id' hid']

theorem Confined.addScope (h : s.Confined t) : s.Confined t.addScope where
  size := by
    have := h.size
    rw [Store.addScope, Array.size_push]
    omega
  captured := h.captured
  kept id hid := by rw [scope_addScope, h.kept id hid]

/-- A definition keeps the chain that it is run on. -/
theorem Confined.define (h : s.Confined t) (name : String) {f : Function}
    (hf : ∀ id ∈ f.closure, s.MayReach id) : s.Confined (t.define name f) where
  size := h.size
  captured id hid := by
    obtain ⟨g, hg, hid⟩ := hid
    rcases List.mem_cons.mp hg with rfl | hg
    · exact hf id hid
    · exact h.captured id ⟨g, (List.mem_filter.mp hg).1, hid⟩
  kept := h.kept

/-- A function of the table is called on a chain that may be written to. -/
theorem Confined.entered (h : s.Confined t) {name : String} {f : Function}
    (hf : t.function? name = some f) : ∀ id ∈ t.scopes.size :: f.closure, s.MayReach id := by
  intro id hid
  rcases List.mem_cons.mp hid with rfl | hid
  · exact .inr h.size
  · exact h.captured id (captures_of_function? hf hid)

/-- **Whatever a call does on chains that it may write to leaves its store confined.** -/
theorem invariant_confined (s : Store) :
    Invariant s.Confined fun chain => chain ≠ [] ∧ ∀ id ∈ chain, s.MayReach id where
  nonempty h := h.1
  enter h hf := ⟨List.cons_ne_nil _ _, h.entered hf⟩
  put h hc hid x v := h.put (hc.2 _ hid) x v
  remove h hc hid x := h.remove (hc.2 _ hid) x
  addScope h := h.addScope
  addTensor h _ := ⟨h.size, h.captured, h.kept⟩
  setCell h _ _ _ := ⟨h.size, h.captured, h.kept⟩
  define h hc _ _ _ _ := h.define _ hc.2
  print h _ := ⟨h.size, h.captured, h.kept⟩

end Store

open Run Machine

/-- A call leaves its store confined, however it ends. -/
theorem callDefined_confined (turns levels : Nat) (s : Store) (loc : Location) {name : String}
    {f : Function} (hf : s.function? name = some f) (given : Arguments) :
    s.Confined (((machine turns levels).callDefined loc name f given).run.run s).2 := by
  have hI := (Store.invariant_confined s).law
  have hpush {u v : Store} (name : String) (h : v = u ∧ s.Confined u) :
      { v with calls := name :: v.calls } = { u with calls := name :: u.calls } ∧
        s.Confined { u with calls := name :: u.calls } :=
    ⟨by rw [h.1], h.2.size, h.2.captured, h.2.kept⟩
  have hpop {u v : Store} (h : v = u ∧ s.Confined u) :
      { v with calls := v.calls.drop 1 } = { u with calls := u.calls.drop 1 } ∧
        s.Confined { u with calls := u.calls.drop 1 } :=
    ⟨by rw [h.1], h.2.size, h.2.captured, h.2.kept⟩
  have hm := machine_tracks (X := fun _ => False) hI (fun name _ _ => hpush name) hpop turns
    (.refl _ levels)
  have hcall := tracks_callDefinedBy hI hm (tracks_block hI (hm.under _)) (hpush name) hpop
    ⟨rfl, .refl s⟩ loc hf given
  obtain ⟨_, _, hfalse⟩ | ⟨_, _, hconfined⟩ := hcall
  · exact hfalse.elim
  · exact hconfined

/-! ## Calls during a run -/

section

variable (p : Store → Store → Prop) [DecidableRel p] (h : Halt)

/-- The machine of a number of levels, with every call of a function of the program
guarded: once its arguments have been evaluated the store is looked at, and again when it
has ended. -/
def callsGuardedMachine (turns : Nat) : Nat → Machine
  | 0 => .bottom
  | levels + 1 =>
    { levels
      evalUnder := fun extra chain e =>
        match extra with
        | 0 => (callsGuardedMachine turns levels).evalBy
            (fun loc name f given => Run.guarded p h
              ((callsGuardedMachine turns levels).callDefined loc name f given)) chain e
        | extra + 1 => (callsGuardedMachine turns levels).evalUnder extra chain e
      execUnder := fun extra chain s =>
        match extra with
        | 0 => (callsGuardedMachine turns levels).execRule turns chain s
        | extra + 1 => (callsGuardedMachine turns levels).execUnder extra chain s }

variable {p}

/-- A machine whose calls pass the guards runs as the guarded machine does. -/
theorem machine_tracks_callsGuarded (turns : Nat)
    (hp : ∀ levels (s : Store) loc name f given, s.function? name = some f →
      p s (((machine turns levels).callDefined loc name f given).run.run s).2) :
    ∀ levels : Nat, (machine turns levels).Tracks (fun s t => t = s ∧ True) (· ≠ [])
      (fun _ => False)
      (callsGuardedMachine p h turns levels) := by
  intro levels
  induction levels with
  | zero => exact ⟨.refl _ _, fun _ _ _ _ => tracks_throw _, fun _ _ _ _ => tracks_throw _⟩
  | succ levels ih =>
    have hI := Store.invariant_true.law
    refine ⟨.refl _ _, fun n chain hc e => ?_, fun n chain hc s => ?_⟩
    · cases n with
      | succ n => exact ih.eval n hc e
      | zero =>
        refine tracks_evalBy hI ih hc ?_ e
        rintro _ s ⟨rfl, -⟩ loc name f hf given
        -- the body runs alike on both machines, so the guard sees what the first call leaves
        have hcall := tracks_callDefinedBy hI ih (tracks_block hI (ih.under _))
          (fun h => ⟨by rw [h.1], trivial⟩) (fun h => ⟨by rw [h.1], trivial⟩) ⟨rfl, trivial⟩ loc hf
          given
        rw [callDefinedBy_block] at hcall
        exact hcall.guarded h fun _ => hp levels s loc name f given hf
    · cases n with
      | succ n => exact ih.exec n hc s
      | zero =>
        have hs := tracks_execBy hI ih hc (tracks_returned hI ih hc) turns s
        rw [execBy_returned] at hs
        exact hs

end

namespace Session

/-- **Calls are lexically scoped.**  When a function of the table is called with arguments
that have been evaluated, every scope that there is and that no function of the table was
defined in or below has the same bindings afterwards, however the call ends: so have the
variables of the caller, unless some function was defined in the caller's scope or below
it.  And whenever a statement of any session calls a function, at any depth, the same
holds between the store in which its arguments have been evaluated and the store that the
call leaves. -/
theorem calls_keep_uncaptured :
    (∀ turns levels (s : Store) loc name f given, s.function? name = some f →
      s.KeepsUncaptured (((machine turns levels).callDefined loc name f given).run.run s).2) ∧
    ∀ (limits : Limits) (store : Store) (stmt : Stmt) (h : Halt),
      runBy (callsGuardedMachine Store.KeepsUncaptured h limits.turns limits.levels) store stmt
        = runStatement limits store stmt := by
  have hcalls (turns levels) (s : Store) (loc name f given) (hf : s.function? name = some f) :
      s.KeepsUncaptured (((machine turns levels).callDefined loc name f given).run.run s).2 :=
    (callDefined_confined turns levels s loc hf given).keepsUncaptured
  refine ⟨hcalls, fun limits store stmt h => ?_⟩
  have hm := machine_tracks_callsGuarded h limits.turns (hcalls limits.turns) limits.levels
  have hexec := hm.exec 0 (List.cons_ne_nil 0 []) stmt store.counted store.counted ⟨rfl, trivial⟩
  obtain ⟨_, _, hfalse⟩ | ⟨hr, ht, -⟩ := hexec
  · exact hfalse.elim
  · have hsame : ((callsGuardedMachine Store.KeepsUncaptured h limits.turns limits.levels).exec
          Store.globalChain stmt).run.run store.counted =
        ((machine limits.turns limits.levels).exec Store.globalChain stmt).run.run
          store.counted := Prod.ext hr ht
    rw [← runBy_machine, runBy, runBy, hsame]

/-- A function that assigns to `x` and defines another one, called where `x` is a variable
of the caller and one of the session: the one of the session is assigned to. -/
theorem calls_keep_uncaptured_caller :
    let body : Block := .mk ⟨1, 14⟩
      [.assign ⟨1, 16⟩ "x" (.name ⟨1, 20⟩ "n") none,
        .define ⟨1, 23⟩ "G" [] "INT" (.mk ⟨1, 36⟩ [.returnValue ⟨1, 37⟩ none]),
        .evaluate (.call ⟨1, 46⟩ "G" []),
        .returnValue ⟨1, 50⟩ (some (.name ⟨1, 57⟩ "n"))]
    let f : Function := ⟨[⟨"INT", "n", none⟩], "INT", body, Store.globalChain⟩
    let s := ((Store.initial.put 0 "x" (.int 1)).addScope.put 1 "x" (.int 2)).define "F" f
    let t := (((machine 9 30).callDefined ⟨2, 1⟩ "F" f ⟨[.int 7], []⟩).run.run s).2
    s.function? "F" = some f ∧ s.Captures 0 ∧ ¬ s.Captures 1 ∧
      (t.scope 0).lookup "x" = some (.int 7) ∧ t.scope 1 = [("x", .int 2)] := by
  intro body f s t
  have hf : s.function? "F" = some f := by rw [Store.function?_define, if_pos rfl]
  have hcaller : ¬ s.Captures 1 := by decide +kernel
  have hkept := calls_keep_uncaptured.1 9 30 s ⟨2, 1⟩ "F" f ⟨[.int 7], []⟩ hf 1 (by decide +kernel)
    hcaller
  exact ⟨hf, by decide +kernel, hcaller, rfl, hkept⟩

end Session

end SpanScript
