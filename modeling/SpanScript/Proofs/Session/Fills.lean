import SpanScript.Proofs.Eval.Filling

/-!
# The cells of a filled tensor

All cells of a tensor that `TNS` has made are one value.  If that is a number or a text, the cells
stay apart: whatever is assigned to a cell later, the others hold what they held and read as they
did, and a name that is bound to what a cell held has no cells to assign to.

If the value is a tensor, the cells share it.  An assignment to a cell of the filled tensor still
leaves its other cells as they are, since no value contains a tensor that was made after it.  But an
assignment through a name for the shared tensor shows in every cell.

* `Store.LeavesOthers`: what a change to one cell leaves of the others.
* `Store.WritesApart`, `Store.StaysApart`: assignments to the tensor itself, and to any tensor
  later on.
* `fills_apart`: the cells of a filled tensor.
* `fill_shared`: a tensor that is shared by the cells.
-/

namespace SpanScript

open Run

namespace Store

/-! ## The other cells -/

/-- After a change to a cell of one tensor, the other cells of a tensor whose cells are of one kind
hold what they held.  It reads as it did, or if it is a tensor, it does unless it contains the
changed one. -/
def LeavesOthers (s : Store) (changed : TensorRef) (offset : Nat) (t : Store) (ref : TensorRef)
    (kind : Kind) : Prop :=
  ∀ (i : Nat) (v : Value), (changed = ref → i ≠ offset) → (s.tensor ref).cells[i]? = some v →
    v.kind = kind ∧ (t.tensor ref).cells[i]? = some v ∧
      ((kind = .tns → ¬ s.Contains changed v) → s.ReadsSame changed t v)

/-- A quiet assignment to a name that stands for a filled tensor leaves all as it was, or it
changes one cell of that tensor, and the others hold the value they were filled with, which reads
as it did. -/
def WritesApart (s : Store) (chain : Chain) (x : String) (ref : TensorRef) (fill : Value) : Prop :=
  ∀ turns levels loc place (target value : Expr), target.indexChain.1 = .name place x →
    target.Quiet → value.Quiet →
    Atomic s (fun c t => c = .normal ∧ ∃ k offset v w,
        (machine turns k).Assigns chain loc target value s ref offset v w ∧
        s.WritesOne ref offset v t ∧
        ∀ i < (s.tensor ref).cells.size, i ≠ offset →
          (t.tensor ref).cells[i]? = some fill ∧ s.ReadsSame ref t fill)
      ((machine turns levels).exec chain (.assignCell loc target value)) s

/-- Assignments to cells leave the cells of a tensor apart, all of which are of one kind.  Through
a name for a value of that kind, unless it is a tensor, nothing is assigned.  And an assignment that
succeeds changes one cell of one tensor at its end, and leaves the other cells. -/
def StaysApart (s : Store) (ref : TensorRef) (kind : Kind) : Prop :=
  ∀ chain, Chain.Held s chain → ∀ turns levels loc (target value : Expr),
    let run := ((machine turns levels).exec chain (.assignCell loc target value)).run.run s
    (∀ place y v, target.indexChain.1 = .name place y → s.get? chain y = some v → v.kind = kind →
      kind ≠ .tns → ∃ h, run = (.error h, s)) ∧
    ∀ c t, run = (.ok c, t) → ∃ k changed offset v w,
      (machine turns k).Assigns chain loc target value s changed offset v w ∧
      t = w.setCell changed offset v ∧ w.LeavesOthers changed offset t ref kind

variable {D : Prop} {s t u : Store} {chain : Chain} {x : String} {changed ref : TensorRef}
  {offset : Nat} {shape : List Nat} {kind : Kind} {v : Value}

theorem leavesOthers_of_change (hs : s.Sound D)
    (hwritten : t.tensor changed = { s.tensor changed with
      cells := (s.tensor changed).cells.setIfInBounds offset v })
    (hothers : ∀ r < s.tensors.size, r ≠ changed → t.tensor r = s.tensor r)
    (href : ref < s.tensors.size) (hkind : ∀ w ∈ (s.tensor ref).cells, w.kind = kind) :
    s.LeavesOthers changed offset t ref kind := by
  intro i w hi hcell
  have hmem : w ∈ (s.tensor ref).cells := Array.mem_of_getElem? hcell
  refine ⟨hkind w hmem, ?_, fun hnot => ?_⟩
  · by_cases hsame : changed = ref
    · subst hsame
      rw [hwritten]
      exact (Array.getElem?_setIfInBounds_ne (hi rfl).symm).trans hcell
    · rw [hothers ref href (Ne.symm hsame)]
      exact hcell
  · refine readsSame_of_others hs hothers (hs.cells ref w hmem) fun hcontains => ?_
    exact hnot ((hkind w hmem).symm.trans hcontains.kind) hcontains

/-! ## Assignments -/

theorem NewlyFilled.cells (h : t.NewlyFilled chain x ref shape v) :
    (t.tensor ref).cells = Array.replicate (Tensor.volume shape) v := by
  rw [h.filled]
  rfl

theorem NewlyFilled.kind_of_mem (h : t.NewlyFilled chain x ref shape v) (hu : t.KeepsTensors u)
    {w : Value} (hw : w ∈ (u.tensor ref).cells) : w.kind = v.kind := by
  have hkinds := (hu.2 ref (h.sound.get? h.named)).kinds
  rw [h.cells, Array.map_replicate] at hkinds
  have hmem : w.kind ∈ (u.tensor ref).cells.map Value.kind := Array.mem_map_of_mem hw
  rw [hkinds] at hmem
  exact (Array.mem_replicate.mp hmem).2

/-- **Assigned to directly, the cells of a filled tensor are apart.** -/
theorem NewlyFilled.writesApart (h : t.NewlyFilled chain x ref shape v) :
    t.WritesApart chain x ref v := by
  intro turns levels loc place target value hname htarget hvalue
  cases levels with
  | zero => exact .refl t
  | succ levels =>
    rw [exec_machine, Machine.execRule, under_machine]
    have hatomic := @atomic_writeIndex turns (levels - Machine.Weight.operand) chain loc t h.sound
      h.unshadowed target value htarget hvalue
    refine Atomic.andThen (Atomic.imp hatomic fun _ u hdone => ?_) _
    obtain ⟨ref', offset, w, b, hassigns, hwrites⟩ := hdone
    obtain rfl : ref = ref' := Value.tns.inj (Option.some.inj (h.named.symm.trans
      (hassigns.named hname)))
    have hleaves := leavesOthers_of_change h.sound hwrites.written hwrites.others hwrites.held
      fun w hw => h.kind_of_mem (.refl t) hw
    refine ⟨_, offset, w, b, hassigns, hwrites, fun i hi hne => ?_⟩
    have hcell : (t.tensor ref).cells[i]? = some v := by
      rw [h.cells, Array.size_replicate] at hi
      rw [h.cells, Array.getElem?_replicate, if_pos hi]
    obtain ⟨-, hsame, hreads⟩ := hleaves i v (fun _ => hne) hcell
    exact ⟨hsame, hreads fun _ => h.apart⟩

/-- Through a name for a number or a text nothing is assigned. -/
theorem writeIndex_fails {place : Location} {w : Value} {target : Expr} (hw : w.kind ≠ .tns)
    (hname : target.indexChain.1 = .name place x) (hx : s.get? chain x = some w) (loc : Location)
    (value : Expr) (turns levels : Nat) :
    ∃ h, ((machine turns levels).writeIndex chain loc target value).run.run s = (.error h, s) := by
  rw [Machine.writeIndex_of_name hname, run_bind]
  cases levels with
  | zero => exact ⟨_, rfl⟩
  | succ levels =>
    rw [eval_name hx]
    cases w with
    | tns ref => exact absurd rfl hw
    | _ => exact ⟨_, rfl⟩

/-- **The cells of a filled tensor stay apart.** -/
theorem NewlyFilled.staysApart (h : t.NewlyFilled chain x ref shape v) (hs : u.Sound True)
    (hu : t.KeepsTensors u) : u.StaysApart ref v.kind := by
  intro chain' hc turns levels loc target value run
  cases levels with
  | zero => exact ⟨fun _ _ _ _ _ _ _ => ⟨_, rfl⟩, fun _ _ hok => nomatch congrArg Prod.fst hok⟩
  | succ levels =>
    have hrun : run = (((machine turns (levels - Machine.Weight.operand)).writeIndex chain' loc
        target value) >>= fun _ => pure Completion.normal).run.run u := by
      rw [← under_machine]
      rfl
    rw [hrun]
    refine ⟨fun place y w hname hy hkind htns => ?_, fun c t' hok => ?_⟩
    · obtain ⟨h, hfails⟩ := writeIndex_fails (hkind ▸ htns) hname hy loc value turns
        (levels - Machine.Weight.operand)
      exact ⟨h, by rw [run_bind, hfails]⟩
    · obtain ⟨_, t'', hwrite, hpure⟩ := run_bind_eq_ok hok
      cases hpure
      obtain ⟨changed, offset, w, b, hassigns, rfl⟩ := Machine.writeIndex_eq_ok_iff.mp hwrite
      obtain ⟨hext, hsound⟩ := hassigns.lands hs hc
      have hkeeps : t.KeepsTensors b := hu.trans hext.tensors
      have href : ref < b.tensors.size := Nat.lt_of_lt_of_le (h.sound.get? h.named) hkeeps.1
      have hwritten := (b.tensor_setCell changed changed offset w).trans (if_pos rfl)
      have hothers : ∀ r < b.tensors.size, r ≠ changed →
          (b.setCell changed offset w).tensor r = b.tensor r :=
        fun r _ hr => (b.tensor_setCell changed r offset w).trans (if_neg hr.symm)
      exact ⟨_, changed, offset, w, b, hassigns, rfl, leavesOthers_of_change hsound hwritten hothers
        href fun a ha => h.kind_of_mem hkeeps ha⟩

end Store

namespace Session

open Classical in
/-- **The cells of a filled tensor do not alias**, but for a tensor that fills them.

In a session that can come about, and wherever any of its statements evaluates, executes or calls
anything, the store is sound, no function has the name of a built-in one, and tensors keep their
form.  In such a store, on any chain of its scopes, let a name be assigned a call of `TNS`, and let
this succeed.  The name then stands for a new tensor of a shape, and all its cells are the value of
the second argument.

Whatever that value is, an assignment to a cell through the name leaves the other cells, and they
read as they did.  In every later store, whatever is assigned to a cell of any tensor leaves the
other cells of this one what they were.  A number or a text that is in them reads as it did, and
through a name for it nothing is assigned; a tensor that is in them reads as it did unless it
contains the tensor that was changed. -/
theorem fills_apart {session : Session} (hs : session.Reachable) :
    (session.store.Sound True ∧ session.store.Unshadowed) ∧
    (session.Passes (fun t u => t.Sound True ∧ u.Sound True ∧ t.KeepsTensors u) ∧
      session.Passes fun t u => t.Unshadowed ∧ u.Unshadowed) ∧
    ∀ s : Store, s.Sound True → s.Unshadowed → ∀ chain, Chain.Held s chain →
      ∀ turns levels loc place x dims fill declared c t,
      ((machine turns levels).exec chain (.assign loc x
        (.call place "TNS" [.positional dims, .positional fill]) declared)).run.run s = (.ok c, t) →
      ∃ k shape v u ref, (machine turns k).Fills chain dims fill s shape v u ∧
        t.NewlyFilled chain x ref shape v ∧ t.WritesApart chain x ref v ∧
        ∀ later : Store, later.Sound True → t.KeepsTensors later → later.StaysApart ref v.kind := by
  have hsound := hs.sound.1
  have hunshadowed : session.store.Unshadowed := hs.apart.unshadowed
  refine ⟨⟨hsound, hunshadowed⟩,
    ⟨passes_of_extends hsound fun _ _ ht hu hext => ⟨ht, hu, hext.tensors⟩,
      passes_of_invariant Store.invariant_unshadowed (fun _ h => h) hunshadowed
        fun _ _ ht hu => ⟨ht, hu⟩⟩, ?_⟩
  intro s hs hu chain hc turns levels loc place x dims fill declared c t h
  obtain ⟨k, shape, v, u, hfills, hnew⟩ := Machine.exists_of_exec_tns hs hu hc h
  exact ⟨k, shape, v, u, _, hfills, hnew, hnew.writesApart,
    fun later hlater hkeeps => hnew.staysApart hlater hkeeps⟩

/-- After `TNS: t = TNS([2], "a")` the assignment `t[1] = "b"` leaves `t[2]`, and after
`STR: u = t[1]` the assignment `u[1] = "b"` fails. -/
theorem fills_apart_letters :
    let integer (n : Int) : Expr := .literal ⟨1, 1⟩ (.int n)
    let text (s : String) : Expr := .literal ⟨1, 1⟩ (.str s)
    let fill : Stmt := .assign ⟨1, 1⟩ "t" (.call ⟨1, 10⟩ "TNS"
      [.positional (.tensor ⟨1, 14⟩ [integer 2]), .positional (text "a")]) (some "TNS")
    let first (x : String) : Expr := .index ⟨2, 1⟩ (.name ⟨2, 1⟩ x) [integer 1]
    let write (x : String) : Stmt := .assignCell ⟨2, 1⟩ (first x) (text "b")
    let filled := Session.after ⟨"t", ⟨9, 30, 9⟩, .initial⟩ fill
    let copied := filled.after (.assign ⟨3, 1⟩ "u" (first "t") (some "STR"))
    let run (s : Store) (stmt : Stmt) := ((machine 9 30).exec Store.globalChain stmt).run.run s
    (∃ ref, filled.store.get? Store.globalChain "t" = some (.tns ref) ∧
      ((run filled.store (write "t")).2.tensor ref).cells[1]? = some (.str "a")) ∧
    ∃ h, run copied.store (write "u") = (.error h, copied.store) := by
  intro integer text fill first write filled copied run
  have hreach : Session.Reachable ⟨"t", ⟨9, 30, 9⟩, .initial⟩ := .new "t" ⟨9, 30, 9⟩
  have hfilled : filled.Reachable := .after fill hreach
  have hc {s : Store} (hs : s.Sound True) : Chain.Held s Store.globalChain :=
    ⟨List.cons_ne_nil _ _, fun id hid => List.mem_singleton.mp hid ▸ hs.scopes⟩
  obtain ⟨⟨hs, hu⟩, -, hall⟩ := fills_apart hreach
  obtain ⟨k, shape, v, u, ref, -, hnew, hdirect, hlater⟩ := hall Store.initial.counted hs.counted hu
    _ (hc hs.counted) 9 30 ⟨1, 1⟩ ⟨1, 10⟩ "t" (.tensor ⟨1, 14⟩ [integer 2]) (text "a") (some "TNS")
    .normal filled.store rfl
  have hnamed : filled.store.get? Store.globalChain "t" = some (.tns 1) := rfl
  obtain rfl : ref = 1 := Value.tns.inj (Option.some.inj (hnew.named.symm.trans hnamed))
  have hcells : (filled.store.tensor 1).cells = #[.str "a", .str "a"] := rfl
  obtain rfl : Value.str "a" = v := by
    have hmem : Value.str "a" ∈ #[Value.str "a", .str "a"] := Array.mem_of_getElem? (i := 0) rfl
    rw [← hcells, hnew.cells] at hmem
    exact (Array.mem_replicate.mp hmem).2
  have hquiet : (first "t").Quiet :=
    (Expr.quiet_name _ _).index (List.forall_mem_singleton.mpr (Expr.quiet_literal _ _)) _
  constructor
  · have hdone := hdirect 9 30 ⟨2, 1⟩ ⟨2, 1⟩ (first "t") (text "b") rfl hquiet
      (Expr.quiet_literal _ _)
    obtain ⟨-, -, offset, -, -, -, -, hothers⟩ := hdone
    refine ⟨1, hnamed, (hothers 1 (by rw [hcells]; decide) ?_).1⟩
    -- the first cell has been changed
    rintro rfl
    have hfirst : some (Value.str "b") = some (.str "a") :=
      (hothers 0 (by rw [hcells]; decide) (by decide)).1
    exact absurd (Value.str.inj (Option.some.inj hfirst)) (by decide)
  · obtain ⟨hext, hsound⟩ := after_lands (D := True) hfilled.sound.1
      (Stmt.admits_true (.assign ⟨3, 1⟩ "u" (first "t") (some "STR")))
    have hstays := hlater copied.store hsound hext.tensors Store.globalChain (hc hsound) 9 30 ⟨2, 1⟩
      (first "u") (text "b")
    have hkind : (copied.store.get? Store.globalChain "u").map Value.kind = some .str := by
      decide +kernel
    obtain ⟨w, hw, hwkind⟩ := Option.map_eq_some_iff.mp hkind
    exact hstays.1 ⟨2, 1⟩ "u" w rfl hw hwkind (by decide)

/-- After `TNS: t = TNS([2], [1, 2])` and `TNS: u = t[1]` the assignment `u[1] = 9` shows in
`t[2]`: it is printed as `[1, 2]` before, and as `[9, 2]` afterwards. -/
theorem fill_shared :
    let integer (n : Int) : Expr := .literal ⟨1, 1⟩ (.int n)
    let cell (x : String) (n : Int) : Expr := .index ⟨1, 1⟩ (.name ⟨1, 1⟩ x) [integer n]
    let fill : Stmt := .assign ⟨1, 1⟩ "t" (.call ⟨1, 10⟩ "TNS"
      [.positional (.tensor ⟨1, 14⟩ [integer 2]),
        .positional (.tensor ⟨1, 19⟩ [integer 1, integer 2])]) (some "TNS")
    let copy : Stmt := .assign ⟨2, 1⟩ "u" (cell "t" 1) (some "TNS")
    let print : Stmt := .evaluate (.call ⟨3, 1⟩ "PRINT" [.positional (cell "t" 2)])
    let write : Stmt := .assignCell ⟨4, 1⟩ (cell "u" 1) (integer 9)
    let copied := [fill, copy, print].foldl after (start "t")
    copied.Reachable ∧ copied.store.printed = "[1, 2]" ∧
      ([write, print].foldl after copied.flush).store.printed = "[9, 2]" := by
  intro integer cell fill copy print write copied
  have hcopied : copied.Reachable := reachable_foldl_after (reachable_start "t") _
  refine ⟨hcopied, ?_, ?_⟩ <;> decide +kernel

end Session

end SpanScript
