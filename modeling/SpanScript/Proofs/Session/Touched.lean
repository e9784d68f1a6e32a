import SpanScript.Proofs.Eval.Cells
import SpanScript.Proofs.Eval.Quiet
import SpanScript.Proofs.Eval.Safety
import SpanScript.Proofs.Session.Apart
import SpanScript.Proofs.Session.Reachable

/-!
# What an assignment touches

An assignment whose expressions are quiet touches one place.  Its expressions are evaluated
first, and leave everything as it was; what may go wrong goes wrong by then, and the one
change comes last.  A name is bound in one scope, or one cell of one tensor that was there is
given another value.

The stores that a program comes to are those for which this holds: they are sound, and no
function of theirs has the name of a built-in one.  Guards that ask for it let every statement
of every session pass.

* `Store.BindsOne`, `Store.WritesOne`: one change.
* `Run.Atomic`: a run that does nothing or all.
* `atomic_assign`, `atomic_writeIndex`: assignments to names and to cells.
* `machine_tracks_guarded`: what all stores of a run have passes the guards.
* `assignments_touch_one`: all of it.
-/

namespace SpanScript

/-! ## One change -/

namespace Store

/-- A name is bound to a value in a scope, and all else is as it was. -/
structure BindsOne (s : Store) (id : Nat) (x : String) (v : Value) (t : Store) : Prop where
  bound : (t.scope id).lookup x = some v
  others : ∀ id' y, id' ≠ id ∨ y ≠ x → (t.scope id').lookup y = (s.scope id').lookup y
  functions : t.functions = s.functions
  printed : t.printed = s.printed
  tensors : ∀ ref < s.tensors.size, t.tensor ref = s.tensor ref

/-- A cell of a tensor is given a value, and all else is as it was. -/
structure WritesOne (s : Store) (ref : TensorRef) (offset : Nat) (v : Value) (t : Store) :
    Prop where
  held : ref < s.tensors.size
  inside : offset < (s.tensor ref).cells.size
  written : t.tensor ref = { s.tensor ref with
    cells := (s.tensor ref).cells.setIfInBounds offset v }
  others : ∀ ref' < s.tensors.size, ref' ≠ ref → t.tensor ref' = s.tensor ref'
  scopes : t.scopes = s.scopes
  functions : t.functions = s.functions
  printed : t.printed = s.printed

variable {s u : Store} {id : Nat} {x : String} {v : Value} {ref : TensorRef} {offset : Nat}

theorem Spares.bindsOne (h : s.Spares u) (hid : id < u.scopes.size) (x : String) (v : Value) :
    s.BindsOne id x v (u.put id x v) where
  bound := by rw [scope_put_self u hid, Scope.lookup_put, if_pos rfl]
  others id' y hne := by
    rw [← h.scope id']
    by_cases hid' : id = id'
    · exact lookup_put_of_ne u id id' (hne.resolve_left (not_not_intro hid'.symm)) v
    · rw [scope_put_of_ne u hid']
  functions := h.functions
  printed := h.printed
  tensors := h.tensors

theorem Spares.writesOne (h : s.Spares u) (href : ref < s.tensors.size)
    (hoffset : offset < (u.tensor ref).cells.size) (v : Value) :
    s.WritesOne ref offset v (u.setCell ref offset v) where
  held := href
  inside := h.tensors ref href ▸ hoffset
  written := by rw [tensor_setCell, if_pos rfl, h.tensors ref href]
  others ref' href' hne := by rw [tensor_setCell, if_neg hne.symm, h.tensors ref' href']
  scopes := h.scopes
  functions := h.functions
  printed := h.printed

end Store

/-! ## Runs that do nothing or all -/

namespace Run

variable {α β : Type} {s t : Store} {m : Run α} {k : α → Run β} {done : β → Store → Prop}

/-- A run from `t` that leaves all as it was in `s` if it fails, and comes to what is done if it
gives an answer. -/
def Atomic (s : Store) (done : α → Store → Prop) (m : Run α) (t : Store) : Prop :=
  match m.run.run t with
  | (.error _, u) => s.Spares u
  | (.ok a, u) => done a u

theorem Atomic.bind (hs : s.Unshadowed) (ht : s.Spares t) (hm : Spares m)
    (hk : ∀ a u, m.run.run t = (.ok a, u) → s.Spares u → Atomic s done (k a) u) :
    Atomic s done (m >>= k) t := by
  have hu := ht.trans (hm t (ht.unshadowed hs))
  unfold Atomic
  rw [run_bind]
  rcases hr : m.run.run t with ⟨x | a, u⟩
  · rw [hr] at hu
    exact hu
  · rw [hr] at hu
    exact hk a u hr hu

theorem Atomic.imp {done' : β → Store → Prop} {m : Run β} (h : Atomic s done m t)
    (hd : ∀ b u, done b u → done' b u) : Atomic s done' m t := by
  unfold Atomic at h ⊢
  rcases hr : m.run.run t with ⟨x | b, u⟩ <;> rw [hr] at h
  · exact h
  · exact hd b u h

theorem Atomic.get {k : Store → Run β} (h : Atomic s done (k t) t) :
    Atomic s done (get >>= k) t := h

theorem atomic_fail (ht : s.Spares t) (cause : Fault) (loc : Location) :
    Atomic s done (fail cause loc) t := ht

/-- A run that is followed by a given answer. -/
theorem Atomic.andThen {m : Run Unit} {done : Store → Prop} (h : Atomic s (fun _ => done) m t)
    (b : β) : Atomic s (fun c u => c = b ∧ done u) (m >>= fun _ => pure b) t := by
  unfold Atomic at h ⊢
  rw [run_bind]
  rcases hr : m.run.run t with ⟨x | a, u⟩
  · rw [hr] at h
    exact h
  · rw [hr] at h
    exact ⟨rfl, h⟩

end Run

open Run

namespace Machine

variable {m : Machine} {chain : Chain} {loc : Location} {s : Store}

/-- **A quiet assignment binds its name, or does nothing.** -/
theorem atomic_assign (hm : m.Spares) (hu : s.Unshadowed) (hc : Chain.Held s chain) (x : String)
    {value : Expr} (hv : value.Quiet) (declared : Option TypeName) :
    Atomic s (fun _ t => ∃ v u,
        ((m.under Weight.operand).eval chain value).run.run s = (.ok v, u) ∧
        s.BindsOne (s.target chain x) x v t)
      (m.assign chain loc x value declared) s := by
  refine Atomic.get ?_
  by_cases hfunction : (s.function? x).isSome = true
  · rw [if_pos hfunction]
    exact atomic_fail (.refl s) _ _
  · rw [if_neg hfunction]
    refine Atomic.bind hu (.refl s) ((hm.under _) 0 chain value hv) fun v u hvalue hsu => ?_
    cases hassign : u.assignScope chain x v declared with
    | error cause =>
      unfold Atomic
      rw [run_assign_error hassign]
      exact hsu
    | ok id =>
      obtain rfl : id = s.target chain x :=
        (Store.assignScope_eq_target hassign).trans (hsu.target chain x)
      have hid : s.target chain x < u.scopes.size := by
        rw [hsu.scopes]
        exact Store.target_lt hc
      unfold Atomic
      rw [run_assign_ok hassign]
      exact ⟨v, u, hvalue, hsu.bindsOne hid x v⟩

end Machine

/-- **A quiet assignment to a cell gives it a value, or does nothing.** -/
theorem atomic_writeIndex {turns levels : Nat} {chain : Chain} {loc : Location} {s : Store}
    (hs : s.Sound True) (hu : s.Unshadowed) {target value : Expr} (ht : target.Quiet)
    (hv : value.Quiet) :
    let m := machine turns levels
    Atomic s (fun _ t => ∃ ref offset v w, m.Assigns chain loc target value s ref offset v w ∧
        s.WritesOne ref offset v t)
      (m.writeIndex chain loc target value) s := by
  intro m
  have hm : m.Spares := machine_spares turns levels
  obtain ⟨hbase, hindices⟩ := ht.indexChain
  cases hname : target.indexChain.1 with
  | name place x =>
    rw [Machine.writeIndex_of_name hname]
    rw [hname] at hbase
    refine Atomic.bind hu (.refl s) (hm 0 chain _ hbase) fun base t hx hst => ?_
    cases base with
    | tns ref =>
      have href : ref < s.tensors.size := hs.get? (eval_name_of_ok hx).1
      have hcell : Run.Spares (m.cellNumber chain loc "ASSIGN" ref target.indexChain.2) :=
        Machine.spares_cellNumber hm loc (by decide) ref hindices
      refine Atomic.bind hu hst hcell fun offset u hnumber hsu => ?_
      refine Atomic.bind hu hsu (hm 0 chain value hv) fun v w hvalue hsw => ?_
      refine Atomic.bind hu hsw (Machine.spares_readCell ref offset) fun old w' hread _ => ?_
      obtain ⟨hold, hsame⟩ := Machine.exists_of_readCell hread
      subst hsame
      by_cases hkind : old.kind = v.kind
      · rw [if_neg (not_not_intro hkind)]
        have hoffset := (Array.getElem?_eq_some_iff.mp hold).1
        exact ⟨ref, offset, v, w', .intro hname hx hnumber hvalue hold hkind,
          hsw.writesOne href hoffset v⟩
      · rw [if_pos hkind]
        exact atomic_fail hsw _ _
    | _ => exact atomic_fail hst _ _
  | _ =>
    unfold Machine.writeIndex
    rcases hchain : target.indexChain with ⟨base, indices⟩
    rw [hchain] at hname
    subst hname
    exact atomic_fail (.refl s) _ _

/-! ## Every store of a run -/

/-- **What all stores of a run have passes the guards** that ask for it. -/
theorem machine_tracks_guarded {P : Store → Prop} (hP : Store.Invariant P (· ≠ []))
    (hcalls : ∀ {s : Store} (calls : List String), P s → P { s with calls := calls })
    {p : Store → Store → Prop} [DecidableRel p] (hp : ∀ s t, P s → P t → p s t) (h : Halt)
    (turns : Nat) : ∀ levels : Nat,
      (machine turns levels).Tracks (fun s t => t = s ∧ P s) (· ≠ []) (fun _ => False)
        (guardedMachine p h turns levels) := by
  have hguard {α : Type} {m m' : Run α}
      (hm : Tracks (fun s t => t = s ∧ P s) (fun _ => False) m m') :
      Tracks (fun s t => t = s ∧ P s) (fun _ => False) m (Run.guarded p h m') := by
    rintro _ s ⟨rfl, hs⟩
    exact TracksAt.guarded (hm s s ⟨rfl, hs⟩) h fun ht => hp s _ hs ht
  have hI := hP.law
  intro levels
  induction levels with
  | zero => exact ⟨.refl _ _, fun _ _ _ _ => tracks_throw _, fun _ _ _ _ => tracks_throw _⟩
  | succ levels ih =>
    refine ⟨.refl _ _, fun n chain hc e => ?_, fun n chain hc stmt => ?_⟩
    · cases n with
      | succ n => exact ih.eval n hc e
      | zero =>
        have he : Tracks (fun s t => t = s ∧ P s) (fun _ => False)
            ((machine turns levels).evalRule chain e)
            ((guardedMachine p h turns levels).evalBy (fun loc name f given => Run.guarded p h
              ((guardedMachine p h turns levels).callDefined loc name f given)) chain e) := by
          refine Machine.tracks_evalBy hI ih hc ?_ e
          rintro _ s ⟨rfl, hs⟩ loc name f hf given
          have hcall := Machine.tracks_callDefinedBy hI ih (Machine.tracks_block hI (ih.under _))
            (fun h => ⟨by rw [h.1], hcalls _ h.2⟩) (fun h => ⟨by rw [h.1], hcalls _ h.2⟩)
            (And.intro rfl hs) loc hf given
          rw [Machine.callDefinedBy_block] at hcall
          exact hcall.guarded h fun ht => hp s _ hs ht
        cases e with
        | call loc callee args => exact hguard he
        | _ => exact hguard he
    · cases n with
      | succ n => exact ih.exec n hc stmt
      | zero =>
        have hs := Machine.tracks_execBy hI ih hc (Machine.tracks_returned hI ih hc) turns stmt
        rw [Machine.execBy_returned] at hs
        exact hguard hs

theorem Store.invariant_unshadowed : Store.Invariant Store.Unshadowed (· ≠ []) where
  nonempty h := h
  enter _ _ := List.cons_ne_nil _ _
  put h _ _ _ _ := h
  remove h _ _ _ := h
  addScope h := h
  addTensor h _ := h
  setCell h _ _ _ := h
  define {s chain name} h _ hname params returns body op := by
    rw [Store.function?_define]
    split
    · next heq =>
      -- a built-in function has its name
      have hnone := List.find?_eq_none.mp hname op op.mem_all
      exact absurd (beq_iff_eq.mpr heq) hnone
    · exact h op
  print h _ := h

namespace Session

open Classical in
/-- Wherever a statement of a session evaluates, executes or calls anything, the stores before
it and after it are in a relation: no guard that asks for it halts. -/
def Passes (s : Session) (p : Store → Store → Prop) : Prop :=
  ∀ (stmt : Stmt) (h : Halt),
    runBy (guardedMachine p h s.limits.turns s.limits.levels) s.store stmt
      = runStatement s.limits s.store stmt

open Classical in
/-- What all stores of a run have, if the first one has it, is found wherever one looks. -/
theorem passes_of_invariant {s : Session} {P : Store → Prop} (hP : Store.Invariant P (· ≠ []))
    (hcalls : ∀ {s : Store} (calls : List String), P s → P { s with calls := calls })
    (hs : P s.store.counted) {p : Store → Store → Prop} (hp : ∀ t u, P t → P u → p t u) :
    s.Passes p := by
  intro stmt h
  have hm := machine_tracks_guarded hP hcalls hp h s.limits.turns s.limits.levels
  have hexec := hm.exec 0 (List.cons_ne_nil 0 []) stmt s.store.counted s.store.counted ⟨rfl, hs⟩
  obtain ⟨_, _, hfalse⟩ | ⟨hr, ht, -⟩ := hexec
  · exact hfalse.elim
  · have hsame : ((guardedMachine p h s.limits.turns s.limits.levels).exec Store.globalChain
        stmt).run.run s.store.counted
        = ((machine s.limits.turns s.limits.levels).exec Store.globalChain stmt).run.run
          s.store.counted := Prod.ext hr ht
    rw [← runBy_machine, runBy, runBy, hsame]

open Classical in
theorem passes_of_extends {s : Session} (hs : s.store.Sound True) {p : Store → Store → Prop}
    (hp : ∀ t u : Store, t.Sound True → u.Sound True → t.Extends True u → p t u) : s.Passes p :=
  fun stmt h => runBy_guarded hs stmt.admits_true hp h

theorem passes_of_sound {s : Session} (hs : s.store.Sound True) {p : Store → Store → Prop}
    (hp : ∀ t u : Store, t.Sound True → u.Sound True → p t u) : s.Passes p :=
  passes_of_extends hs fun t u ht hu _ => hp t u ht hu

/-- **Assignments are atomic and touch one place.**

In a session that can come about, and wherever any of its statements evaluates, executes or
calls anything, the store is sound and no function has the name of a built-in one.  In such a
store, on any chain of its scopes, a quiet expression leaves all as it was, whether it gives a
value or fails.  An assignment of a quiet value to a name, a declaration or not, leaves all as
it was if it fails; if it succeeds, its name is bound to the value in the innermost scope that
had the name, or else in the current one, and nothing else has changed.  An assignment of a
quiet value to a cell with quiet indices leaves all as it was if it fails; if it succeeds, one
cell of one tensor that was there holds the value, and nothing else has changed. -/
theorem assignments_touch_one {s : Session} (hs : s.Reachable) :
    (s.store.Sound True ∧ s.store.Unshadowed) ∧
    (s.Passes (fun t u => t.Sound True ∧ u.Sound True) ∧
      s.Passes fun t u => t.Unshadowed ∧ u.Unshadowed) ∧
    ∀ t : Store, t.Sound True → t.Unshadowed → ∀ chain, Chain.Held t chain → ∀ turns levels,
      let m := machine turns levels
      (∀ e, e.Quiet → t.Spares ((m.eval chain e).run.run t).2) ∧
      (∀ loc x value declared, value.Quiet →
        Run.Atomic t (fun c u => c = .normal ∧ ∃ v w,
            ((m.under Machine.Weight.operand).eval chain value).run.run t = (.ok v, w) ∧
            t.BindsOne (t.target chain x) x v u)
          ((machine turns (levels + 1)).exec chain (.assign loc x value declared)) t) ∧
      ∀ loc target value, target.Quiet → value.Quiet →
        Run.Atomic t (fun c u => c = .normal ∧ ∃ ref offset v w,
            (m.under Machine.Weight.operand).Assigns chain loc target value t ref offset v w ∧
            t.WritesOne ref offset v u)
          ((machine turns (levels + 1)).exec chain (.assignCell loc target value)) t := by
  have hsound := hs.sound.1
  have hunshadowed : s.store.Unshadowed := hs.apart.unshadowed
  refine ⟨⟨hsound, hunshadowed⟩, ⟨passes_of_sound hsound fun _ _ ht hu => ⟨ht, hu⟩,
    passes_of_invariant Store.invariant_unshadowed (fun _ h => h) hunshadowed
      fun _ _ ht hu => ⟨ht, hu⟩⟩, ?_⟩
  intro t ht hu chain hc turns levels m
  have hm : m.Spares := machine_spares turns levels
  refine ⟨fun e he => hm 0 chain e he t hu, fun loc x value declared hv => ?_,
    fun loc target value htarget hv => ?_⟩
  · rw [exec_machine]
    exact (Machine.atomic_assign hm hu hc x hv declared).andThen _
  · rw [exec_machine]
    show Run.Atomic t _ ((m.under Machine.Weight.operand).writeIndex chain loc target value >>= _) t
    rw [under_machine]
    exact (atomic_writeIndex ht hu htarget hv).andThen _

/-- After `TNS: t = [1, 2]` the assignment `t[2] = ADD(t[1], t[2])` writes one cell, and
`t[3] = ADD(t[1], t[2])` fails and leaves all as it was. -/
theorem assignments_touch_one_cell :
    let declare : Stmt := .assign ⟨1, 1⟩ "t"
      (.tensor ⟨1, 10⟩ [.literal ⟨1, 11⟩ (.int 1), .literal ⟨1, 14⟩ (.int 2)]) (some "TNS")
    let cell (i : Int) : Expr := .index ⟨2, 1⟩ (.name ⟨2, 1⟩ "t") [.literal ⟨2, 3⟩ (.int i)]
    let value : Expr := .call ⟨2, 8⟩ "ADD" [.positional (cell 1), .positional (cell 2)]
    let s := (Session.after ⟨"t", ⟨9, 30, 9⟩, .initial⟩ declare).store
    let run (i : Int) :=
      ((machine 9 30).exec Store.globalChain (.assignCell ⟨2, 1⟩ (cell i) value)).run.run s
    (∃ ref offset v u, run 2 = (.ok .normal, u) ∧ s.WritesOne ref offset v u) ∧
      ∃ u, run 3 = (.error (.fault (.index .outOfRange) ⟨2, 1⟩), u) ∧ s.Spares u := by
  intro declare cell value s run
  have hreach : (Session.after ⟨"t", ⟨9, 30, 9⟩, .initial⟩ declare).Reachable :=
    .after declare (.new "t" ⟨9, 30, 9⟩)
  obtain ⟨⟨hs, hu⟩, -, hall⟩ := assignments_touch_one hreach
  have hc : Chain.Held s Store.globalChain :=
    ⟨List.cons_ne_nil _ _, fun id hid => List.mem_singleton.mp hid ▸ hs.scopes⟩
  obtain ⟨-, -, hcell⟩ := hall s hs hu Store.globalChain hc 9 29
  have hquiet (i : Int) : (cell i).Quiet := by
    refine Expr.quiet_of_parts nofun fun e he => ?_
    simp only [cell, Expr.parts, List.mem_cons, List.not_mem_nil, or_false] at he
    obtain rfl | rfl := he <;> exact Expr.quiet_of_parts nofun nofun
  have hvalue : value.Quiet := by
    refine Expr.quiet_of_parts (fun _ _ _ h => ?_) fun e he => ?_
    · obtain ⟨-, rfl, -⟩ := Expr.call.inj h
      exact ⟨.add, rfl, rfl⟩
    · simp only [value, Expr.parts, List.map_cons, List.map_nil, Argument.value, List.mem_cons,
        List.not_mem_nil, or_false] at he
      obtain rfl | rfl := he <;> exact hquiet _
  constructor
  · have hdone := hcell ⟨2, 1⟩ (cell 2) value (hquiet 2) hvalue
    obtain ⟨-, ref, offset, v, w, -, hwrites⟩ := hdone
    exact ⟨ref, offset, v, _, rfl, hwrites⟩
  · exact ⟨_, rfl, hcell ⟨2, 1⟩ (cell 3) value (hquiet 3) hvalue⟩

end Session

end SpanScript
