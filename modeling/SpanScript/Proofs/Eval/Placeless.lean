import SpanScript.Proofs.Eval.Relocate

/-!
# Expressions at other places

The places in an expression are seen only in faults.  Evaluated in the same store with its
places moved, an expression changes the store in the same way, gives the same value, and
fails by the same fault; only where the fault is may differ.

`Follows` moves the places of the functions of the store along with those of the tree, so
that the bodies that run are moved too.  Here the store stays as it is: a function that is
called is the same one, and what differs is only the place of the call.

* `Run.Matches`: two runs that differ in the places of faults only.
* `placeless`: such runs as an accord for calls.
* `matches_readIndex`, `matches_writeIndex`: cells.
* `machine_matches`: expressions.
-/

namespace SpanScript

open Run Accord

namespace Run

variable {α β γ : Type} {m m' m'' : Run α} {k k' : α → Run β}

/-- A run does what another one does, but for the places of faults. -/
def Matches (m m' : Run α) : Prop := ∀ s : Store,
  (m'.run.run s).1.mapError (Halt.relocate Location.forget)
      = (m.run.run s).1.mapError (Halt.relocate Location.forget) ∧
    (m'.run.run s).2 = (m.run.run s).2

theorem Matches.refl (m : Run α) : Matches m m := fun _ => ⟨rfl, rfl⟩

theorem Matches.symm (h : Matches m m') : Matches m' m :=
  fun s => ⟨(h s).1.symm, (h s).2.symm⟩

theorem Matches.trans (h : Matches m m') (h' : Matches m' m'') : Matches m m'' :=
  fun s => ⟨(h' s).1.trans (h s).1, (h' s).2.trans (h s).2⟩

/-- Runs that differ in the places of faults give the same value. -/
theorem Matches.eq_ok (h : Matches m m') {s : Store} {a : α} (hm : (m.run.run s).1 = .ok a) :
    (m'.run.run s).1 = .ok a := by
  have hr := (h s).1
  rw [hm] at hr
  cases hm' : (m'.run.run s).1 with
  | error x =>
    rw [hm'] at hr
    cases hr
  | ok b =>
    rw [hm'] at hr
    exact hr

theorem Matches.bind (h : Matches m m') (hk : ∀ a, Matches (k a) (k' a)) :
    Matches (m >>= k) (m' >>= k') := by
  intro s
  obtain ⟨hr, ht⟩ := h s
  rw [run_bind, run_bind]
  rcases hm : m.run.run s with ⟨x | a, t⟩ <;> rcases hm' : m'.run.run s with ⟨x' | a', t'⟩ <;>
    rw [hm, hm'] at hr ht <;> cases ht
  · exact ⟨congrArg Except.error (Except.error.inj hr), rfl⟩
  · cases hr
  · cases hr
  · cases Except.ok.inj hr
    exact hk a t

/-- Runs that differ in the places of faults only are in accord. -/
def Accord.placeless : Accord where
  Related s t := t = s
  Later _ _ := True
  Halts h h' := h'.relocate Location.forget = h.relocate Location.forget
  Excepted _ := False
  refl _ := trivial
  trans _ _ := trivial

theorem matches_iff : Matches m m' ↔ ∀ s, Accord.placeless.AgreeAt Any m m' s s := by
  refine forall_congr' fun s => ?_
  unfold AgreeAt
  generalize m.run.run s = x
  generalize m'.run.run s = y
  obtain ⟨r, t⟩ := x
  obtain ⟨r', t'⟩ := y
  constructor
  · rintro ⟨hr, rfl⟩
    cases r with
    | ok a =>
      cases r' <;> cases hr
      exact .answer trivial rfl trivial
    | error h =>
      cases r' with
      | ok a => cases hr
      | error h' => exact .halt trivial rfl (Except.error.inj hr)
  · rintro (⟨-, rfl, -⟩ | ⟨-, rfl, hh⟩ | hx)
    · exact ⟨rfl, rfl⟩
    · exact ⟨congrArg Except.error hh, rfl⟩
    · exact hx.elim

theorem matches_of_agree {Q : Store → α → Prop}
    (h : ∀ s, Accord.placeless.Agree s Q m m') : Matches m m' :=
  matches_iff.mpr fun s => (h s).any trivial rfl

theorem Matches.agree {s : Store} (h : Matches m m') : Accord.placeless.Agree s Any m m' :=
  fun t _ _ hr => hr ▸ matches_iff.mp h t

end Run

/-! ## Places of calls -/

/-- Runs on expressions whose places are moved, in stores that stay as they are. -/
def placeless (f : Location → Location) : Calling where
  toAccord := .placeless
  material := .whole
  move := f
  carry := id
  home := id
  Sees _ _ := True
  Held := Any
  Allows _ := True
  scopes h := by rw [h]
  tensors h := by rw [h]
  functions h name := by rw [h, Option.map_id]; rfl
  sees _ _ := trivial
  held _ _ := trivial
  plain _ := trivial
  bound _ _ := trivial
  cell _ _ := trivial
  missing _ _ _ _ _ _ := rfl
  blames _ := rfl
  tooDeep := rfl
  printTooLong := rfl
  unfinished := rfl
  allowed _ := trivial
  addTensor h _ _ := ⟨trivial, by rw [h]; rfl, trivial⟩
  print _ h _ := ⟨trivial, by rw [h]; rfl⟩
  remove _ h _ _ := ⟨trivial, by rw [h]; rfl⟩
  carries := Function.relocate_id
  defined _ _ := ⟨.first, trivial⟩
  addScope h _ := ⟨trivial, by rw [h]; rfl, trivial⟩
  param _ _ h _ _ _ := ⟨trivial, by rw [h]; rfl, trivial⟩

namespace Machine

variable {m : Machine} {f : Location → Location} {chain : Chain}

/-- A call of a function from another place. -/
theorem dispatches_placeless (f : Location → Location) (m : Machine) :
    Dispatches (placeless f).toEvaluation m.callDefined m.callDefined := by
  intro s t loc name args F given hst _ hF hg
  have hm : Evaluates (placeless f).toEvaluation id m m :=
    ⟨.refl _ _, fun n _ chain e _ _ => by rw [e.relocate_id]; exact (Matches.refl _).agree⟩
  have hhosts : (placeless f).Hosts .placeless name :=
    ⟨fun _ _ h => ⟨trivial, by rw [h]; rfl⟩, id, id⟩
  have hsame : F.relocate (placeless f).home = F := F.relocate_id
  have hbody (chain : Chain) {u v : Store} (huv : v = u) : Accord.placeless.AgreeAt Any
      ((m.under Weight.body).block chain F.body.statements)
      ((m.under Weight.body).block chain (F.relocate (placeless f).home).body.statements)
      (u.calling name) (v.calling name) := by
    rw [hsame, huv]
    exact matches_iff.mp (Matches.refl _) _
  have h := agreeAt_callDefinedBy (S := placeless f) (Material.place_whole loc) hm hhosts hst
    (Material.name_whole name) hF hg (fun {chain _ _} _ _ huv => hbody chain huv)
    fun _ _ _ => trivial
  rw [hsame, callDefinedBy_block] at h
  exact h

/-! ## Expressions -/

/-- A machine evaluates expressions with their places moved as it does without. -/
def Matches (f : Location → Location) (m : Machine) : Prop :=
  ∀ n chain e, Run.Matches (m.evalUnder n chain e) (m.evalUnder n chain (e.relocate f))

theorem Matches.evaluates (h : m.Matches f) : Evaluates (placeless f).toEvaluation f m m :=
  ⟨.refl _ _, fun n _ chain e _ _ => (h n chain e).agree⟩

section

variable (hm : m.Matches f)
include hm

theorem matches_readIndex (loc : Location) (e : Expr) :
    Run.Matches (m.readIndex chain loc e) (m.readIndex chain (f loc) (e.relocate f)) :=
  matches_of_agree fun _ => agree_readIndex (S := (placeless f).toEvaluation) hm.evaluates trivial
    (Material.place_whole loc) trivial

theorem matches_writeIndex (loc : Location) (target value : Expr) :
    Run.Matches (m.writeIndex chain loc target value)
      (m.writeIndex chain (f loc) (target.relocate f) (value.relocate f)) :=
  matches_of_agree fun _ => agree_writeIndex (S := (placeless f).toEvaluation)
    (fun _ _ _ _ _ _ h _ _ _ => ⟨trivial, by rw [h]; rfl⟩) hm.evaluates trivial trivial

theorem matches_evalRule (e : Expr) :
    Run.Matches (m.evalRule chain e) (m.evalRule chain (e.relocate f)) := by
  rw [← evalBy_callDefined]
  exact matches_of_agree fun _ => agree_evalBy (S := (placeless f).toEvaluation) hm.evaluates
    trivial (dispatches_placeless f m) trivial

end

end Machine

/-- **The places in an expression are only seen in faults.** -/
theorem machine_matches (f : Location → Location) (turns : Nat) :
    ∀ levels : Nat, (machine turns levels).Matches f := by
  intro levels
  induction levels with
  | zero => exact fun _ _ _ => .refl _
  | succ levels ih =>
    intro n chain e
    cases n with
    | zero => exact Machine.matches_evalRule ih e
    | succ n => exact ih n chain e

end SpanScript
