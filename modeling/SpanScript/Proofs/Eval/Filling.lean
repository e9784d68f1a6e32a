import SpanScript.Proofs.Session.Touched
import SpanScript.Proofs.Value.Containing

/-!
# Tensors that are filled with a value

`TNS` evaluates its two arguments, the dimensions and then the value to fill with, and holds a new
tensor all of whose cells are that value.  If the value is a tensor, every cell is that same tensor.

* `Builtin.shape_of_ok`: the shapes that there are.
* `Machine.Fills`, `exists_of_eval_tns`: the steps of the call.
* `Store.NewlyFilled`, `exists_of_exec_tns`: what is held once the answer has been assigned.
* `Assigns.lands`: an assignment to a cell leaves the store sound up to its end.
-/

namespace SpanScript

open Run

/-! ## Shapes -/

namespace Builtin

variable {op : Builtin}

theorem dimensions_of_ok : ∀ {cells : List Value} {dims : List Int},
    dimensions op cells = .ok dims → cells = dims.map .int := by
  intro cells
  induction cells with
  | nil =>
    intro dims h
    cases h
    rfl
  | cons v rest ih =>
    intro dims h
    cases v with
    | int n =>
      rw [dimensions, integer] at h
      cases hrest : dimensions op rest with
      | error cause =>
        rw [hrest] at h
        cases h
      | ok ns =>
        rw [hrest] at h
        cases h
        rw [List.map_cons, ih hrest]
    | _ => cases h

/-- **A shape is given by positive integers**, at least one. -/
theorem shape_of_ok {cells : List Value} {shape : List Nat} (h : shapeOf op cells = .ok shape) :
    shape ≠ [] ∧ 0 ∉ shape ∧ cells = shape.map fun n : Nat => .int n := by
  unfold shapeOf at h
  cases hdims : dimensions op cells with
  | error cause =>
    rw [hdims] at h
    cases h
  | ok dims =>
    rw [hdims] at h
    obtain rfl := dimensions_of_ok hdims
    change (if dims.isEmpty then Except.error Fault.noDimensions
      else if dims.any (· ≤ 0) then .error .nonPositiveDimension
      else .ok (dims.map Int.toNat)) = _ at h
    by_cases hempty : dims.isEmpty
    · rw [if_pos hempty] at h
      cases h
    rw [if_neg hempty] at h
    by_cases hany : dims.any (· ≤ 0)
    · rw [if_pos hany] at h
      cases h
    rw [if_neg hany] at h
    cases h
    have hpos : ∀ n ∈ dims, 0 < n := by simpa using hany
    refine ⟨fun hnil => hempty ?_, fun hzero => ?_, ?_⟩
    · rw [List.map_eq_nil_iff.mp hnil]
      rfl
    · obtain ⟨n, hn, hn0⟩ := List.mem_map.mp hzero
      have := hpos n hn
      omega
    · rw [List.map_map]
      refine List.map_congr_left fun n hn => ?_
      show Value.int n = .int (n.toNat : Int)
      rw [Int.toNat_of_nonneg (Int.le_of_lt (hpos n hn))]

end Builtin

/-! ## The call -/

namespace Machine

variable {turns levels : Nat} {chain : Chain} {loc place : Location} {s t w : Store}

theorem unshadowed_of_eval {e : Expr} {r : Except Halt Value} (hu : s.Unshadowed)
    (hc : chain ≠ []) (h : ((machine turns levels).eval chain e).run.run s = (r, t)) :
    t.Unshadowed := by
  have hm := machine_tracks (X := fun _ => False) Store.invariant_unshadowed.law
    (fun _ {s t} h => ⟨by rw [h.1], h.2⟩) (fun {s t} h => ⟨by rw [h.1], h.2⟩) turns
    (.refl _ levels)
  obtain ⟨_, _, hfalse⟩ | ⟨_, _, hafter⟩ := hm.eval 0 hc e s s ⟨rfl, hu⟩
  · exact hfalse.elim
  · change (((machine turns levels).eval chain e).run.run s).2.Unshadowed at hafter
    rw [h] at hafter
    exact hafter

/-- The steps of a call of `TNS`: its arguments are evaluated, and the cells of the first one are
the dimensions of a shape.  The store is the one in which the new tensor is then held. -/
inductive Fills (m : Machine) (chain : Chain) (dims fill : Expr) (s : Store) :
    List Nat → Value → Store → Prop
  | intro {ref : TensorRef} {shape : List Nat} {v : Value} {t u : Store} :
    (m.eval chain dims).run.run s = (.ok (.tns ref), t) →
    (m.eval chain fill).run.run t = (.ok v, u) →
    (u.tensor ref).cells.toList = shape.map (fun n : Nat => .int n) → shape ≠ [] → 0 ∉ shape →
    Fills m chain dims fill s shape v u

variable {dims fill : Expr} {v : Value}

theorem exists_of_arguments {m : Machine} {given : Arguments}
    (h : (m.arguments chain loc [.positional dims, .positional fill] ⟨[], []⟩).run.run s
      = (.ok given, t)) :
    ∃ d v u, given = ⟨[d, v], []⟩ ∧ (m.eval chain dims).run.run s = (.ok d, u) ∧
      (m.eval chain fill).run.run u = (.ok v, t) := by
  obtain ⟨d, u, hd, h⟩ := run_bind_eq_ok h
  obtain ⟨v, u', hv, h⟩ := run_bind_eq_ok h
  cases h
  exact ⟨d, v, u, rfl, hd, hv⟩

/-- A call of `TNS` with its arguments evaluated. -/
theorem exists_of_apply_tns {d answer : Value} {readable : Nat}
    (h : (Builtin.apply readable loc .tns [d, v]).run.run s = (.ok answer, t)) :
    ∃ ref shape, d = .tns ref ∧ Builtin.shapeOf .tns (s.tensor ref).cells.toList = .ok shape ∧
      answer = .tns s.tensors.size ∧
      t = s.addTensor (.ofCells shape (Array.replicate (Tensor.volume shape) v)) := by
  obtain ⟨_, u, hcount, h⟩ := run_bind_eq_ok h
  cases hcount
  obtain ⟨ref, u, href, h⟩ := run_bind_eq_ok h
  cases d with
  | tns ref' =>
    cases href
    rw [run_get] at h
    obtain ⟨shape, u, hshape, h⟩ := run_bind_eq_ok h
    cases hok : Builtin.shapeOf .tns (s.tensor ref).cells.toList with
    | error cause =>
      rw [hok] at hshape
      cases hshape
    | ok shape' =>
      rw [hok] at hshape
      cases hshape
      cases h
      exact ⟨ref, shape, rfl, hok, rfl, rfl⟩
  | _ => cases href

/-- **A call of `TNS` holds a new tensor**, and all of its cells are one value. -/
theorem exists_of_eval_tns (hu : s.Unshadowed) (hc : chain ≠ [])
    (h : ((machine turns levels).eval chain
      (.call place "TNS" [.positional dims, .positional fill])).run.run s = (.ok v, t)) :
    ∃ k shape w u, (machine turns k).Fills chain dims fill s shape w u ∧
      v = .tns u.tensors.size ∧
      t = u.addTensor (.ofCells shape (Array.replicate (Tensor.volume shape) w)) := by
  cases levels with
  | zero => cases h
  | succ levels =>
    have hop : (Builtin.ofName? "TNS").filter Builtin.takesName = none := by decide
    have hbuiltin : Builtin.ofName? "TNS" = some .tns := by decide
    rw [eval_machine, evalRule, call] at h
    simp only [hop] at h
    obtain ⟨given, u, hargs, h⟩ := run_bind_eq_ok h
    obtain ⟨d, w, u', rfl, hd, hw⟩ := exists_of_arguments hargs
    rw [under_machine] at hd hw
    -- no function of the program has the name
    have hnone : u.function? "TNS" = none :=
      unshadowed_of_eval (unshadowed_of_eval hu hc hd) hc hw .tns
    rw [run_get] at h
    simp only [hnone, hbuiltin] at h
    obtain ⟨ref, shape, rfl, hok, rfl, rfl⟩ := exists_of_apply_tns h
    obtain ⟨hne, hzero, hcells⟩ := Builtin.shape_of_ok hok
    exact ⟨_, shape, w, u, .intro hd hw hcells hne hzero, rfl, rfl⟩

/-! ## Assigning -/

theorem exists_of_assign {m : Machine} {x : String} {value : Expr} {declared : Option TypeName}
    (h : (m.assign chain loc x value declared).run.run s = (.ok (), t)) :
    ∃ v u, ((m.under Weight.operand).eval chain value).run.run s = (.ok v, u) ∧
      t = u.put (u.target chain x) x v := by
  rw [assign, run_get] at h
  by_cases hfunction : (s.function? x).isSome = true
  · rw [if_pos hfunction] at h
    cases h
  · rw [if_neg hfunction] at h
    obtain ⟨v, u, hv, h⟩ := run_bind_eq_ok h
    cases hassign : u.assignScope chain x v declared with
    | error cause =>
      rw [run_assign_error hassign] at h
      cases h
    | ok id =>
      rw [run_assign_ok hassign] at h
      cases h
      exact ⟨v, u, hv, by rw [Store.assignScope_eq_target hassign]⟩

end Machine

/-! ## What is held -/

section

variable {turns levels : Nat} {chain : Chain} {loc place : Location} {s t : Store} {x : String}
  {ref : TensorRef} {shape : List Nat} {v : Value}

/-- A name has been bound to a new tensor of a shape that is filled with a value. -/
structure Store.NewlyFilled (t : Store) (chain : Chain) (x : String) (ref : TensorRef)
    (shape : List Nat) (v : Value) : Prop where
  sound : t.Sound True
  unshadowed : t.Unshadowed
  named : t.get? chain x = some (.tns ref)
  filled : t.tensor ref = .ofCells shape (Array.replicate (Tensor.volume shape) v)
  apart : ¬ t.Contains ref v

theorem lands_of_eval {e : Expr} {r : Except Halt Value} (hs : s.Sound True)
    (hc : Chain.Held s chain) (h : ((machine turns levels).eval chain e).run.run s = (r, t)) :
    s.Extends True t ∧ t.Sound True ∧ ∀ v, r = .ok v → v.Held t := by
  have hlands := eval_lands hs hc (e := e) (fun _ => trivial) turns levels 0
  rw [under_machine, Nat.sub_zero, h] at hlands
  exact ⟨hlands.later, hlands.sound, hlands.answer⟩

/-- A tensor that is filled with a value that was there before it is not held by the value. -/
theorem Store.Sound.newlyFilled (hs : s.Sound True) (hu : s.Unshadowed) (hc : Chain.Held s chain)
    (hv : v.Held s) :
    let t := s.addTensor (.ofCells shape (Array.replicate (Tensor.volume shape) v))
    (t.put (t.target chain x) x (.tns s.tensors.size)).NewlyFilled chain x s.tensors.size shape
      v := by
  intro t
  have ht : t.Sound True :=
    hs.addTensor (Tensor.filled_ofCells Array.size_replicate) fun w hw =>
      (Array.mem_replicate.mp hw).2 ▸ hv
  have hct : Chain.Held t chain := hc.of_size (Nat.le_refl _)
  have hnew : Value.Held t (.tns s.tensors.size) := by
    show s.tensors.size < (s.tensors.push _).size
    rw [Array.size_push]
    exact Nat.lt_succ_self _
  have hnamed := Store.get?_put_target (x := x) hct.1 (Store.target_lt hct) (.tns s.tensors.size)
  refine ⟨ht.put _ _ hnew, hu, hnamed, ?_, fun hcontains => ?_⟩
  · exact (s.tensor_addTensor _ _).trans (if_pos rfl)
  · have hsame : ∀ r < s.tensors.size,
        (t.put (t.target chain x) x (.tns s.tensors.size)).tensor r = s.tensor r :=
      fun r hr => (s.tensor_addTensor _ r).trans (if_neg (Nat.ne_of_lt hr))
    exact Nat.lt_irrefl _ (hcontains.lt hs hsame hv)

namespace Machine

variable {dims fill : Expr} {declared : Option TypeName} {offset : Nat} {w : Store}

theorem Fills.lands (h : (machine turns levels).Fills chain dims fill s shape v t)
    (hs : s.Sound True) (hc : Chain.Held s chain) :
    s.Extends True t ∧ t.Sound True ∧ v.Held t := by
  cases h with
  | intro hdims hfill _ _ _ =>
    obtain ⟨hext, hsound, -⟩ := lands_of_eval hs hc hdims
    obtain ⟨hext', hsound', hheld⟩ := lands_of_eval hsound (hc.mono hext) hfill
    exact ⟨hext.trans hext', hsound', hheld v rfl⟩

theorem Fills.unshadowed (h : (machine turns levels).Fills chain dims fill s shape v t)
    (hu : s.Unshadowed) (hc : chain ≠ []) : t.Unshadowed := by
  cases h with
  | intro hdims hfill _ _ _ => exact unshadowed_of_eval (unshadowed_of_eval hu hc hdims) hc hfill

/-- **An assignment of a call of `TNS`** binds its name to a new tensor, which is filled with the
value of its second argument. -/
theorem exists_of_exec_tns (hs : s.Sound True) (hu : s.Unshadowed) (hc : Chain.Held s chain)
    {c : Completion} (h : ((machine turns levels).exec chain (.assign loc x
      (.call place "TNS" [.positional dims, .positional fill]) declared)).run.run s = (.ok c, t)) :
    ∃ k shape v u, (machine turns k).Fills chain dims fill s shape v u ∧
      t.NewlyFilled chain x u.tensors.size shape v := by
  cases levels with
  | zero => cases h
  | succ levels =>
    rw [exec_machine, execRule] at h
    obtain ⟨_, u, hassign, hpure⟩ := run_bind_eq_ok h
    cases hpure
    obtain ⟨v, u', hcall, rfl⟩ := exists_of_assign hassign
    rw [under_machine] at hcall
    obtain ⟨k, shape, w, u, hfills, rfl, rfl⟩ := exists_of_eval_tns hu hc.1 hcall
    obtain ⟨hext, hsound, hheld⟩ := hfills.lands hs hc
    exact ⟨k, shape, w, u, hfills,
      hsound.newlyFilled (hfills.unshadowed hu hc.1) (hc.mono hext) hheld⟩

/-- An assignment to a cell leaves the store sound up to the moment of the change. -/
theorem Assigns.lands {target value : Expr}
    (h : (machine turns levels).Assigns chain loc target value s ref offset v w)
    (hs : s.Sound True) (hc : Chain.Held s chain) : s.Extends True w ∧ w.Sound True := by
  cases h with
  | intro _ hbase hnumber hvalue _ _ =>
    obtain ⟨hx, rfl⟩ := eval_name_of_ok hbase
    have hrule : "ASSIGN" ∈ integerRules := by decide
    have hlands := cellNumber_lands hs hc loc hrule (hs.get? hx) turns levels
      target.indexChain.2
    rw [hnumber] at hlands
    obtain ⟨hext, hsound, -⟩ := lands_of_eval hlands.sound (hc.mono hlands.later) hvalue
    exact ⟨hlands.later.trans hext, hsound⟩

end Machine

end

end SpanScript
