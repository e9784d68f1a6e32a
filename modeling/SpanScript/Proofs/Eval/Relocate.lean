import SpanScript.Proofs.Eval.Statements

/-!
# Evaluation does not look at places

The functions of a store have places in them, and so have the faults of a run.  On a tree and a
store with their places moved, a machine of the language does what it does without: the same is
printed, the same values are made, and the same faults come, at the moved places, and every
function of the store that is left has its places moved.

* `Run.Follows`: what a run does, done with other places.
* `relocating`: moved places as an accord.
* `machine_relocates`: the machines.
-/

namespace SpanScript

open Run Accord

def Store.relocate (f : Location → Location) (s : Store) : Store :=
  { s with functions := s.functions.map fun (name, F) => (name, F.relocate f) }

def Halt.relocate (f : Location → Location) : Halt → Halt
  | .fault cause loc => .fault cause (f loc)
  | .tooDeep => .tooDeep
  | .printTooLong => .printTooLong
  | .absent what => .absent what
  | .unfinished => .unfinished

namespace Store

variable (f : Location → Location) (s : Store)

theorem function?_relocate (name : String) :
    (s.relocate f).function? name = (s.function? name).map (Function.relocate f) := by
  show (s.functions.map _).lookup name = (s.functions.lookup name).map _
  induction s.functions with
  | nil => rfl
  | cons x rest ih =>
    rw [List.map_cons, List.lookup_cons, List.lookup_cons]
    split
    · rfl
    · exact ih

theorem define_relocate (name : String) (F : Function) :
    (s.define name F).relocate f = (s.relocate f).define name (F.relocate f) := by
  unfold define relocate
  simp only [List.map_cons, List.filter_map]
  rfl

end Store

variable {f : Location → Location}

namespace Run

variable {α : Type} {m m' : Run α}

/-- `m'` does, with the places moved, what `m` does. -/
def Follows (f : Location → Location) (m m' : Run α) : Prop :=
  ∀ s : Store, m'.run.run (s.relocate f)
    = ((m.run.run s).1.mapError (Halt.relocate f), (m.run.run s).2.relocate f)

def Accord.relocating (f : Location → Location) : Accord where
  Related s t := t = s.relocate f
  Later _ _ := True
  Halts h h' := h' = h.relocate f
  Excepted _ := False
  refl _ := trivial
  trans _ _ := trivial

theorem follows_of_agree {Q : Store → α → Prop}
    (h : ∀ s, (Accord.relocating f).Agree s Q m m') : Follows f m m' := by
  intro s
  have hs : (Accord.relocating f).AgreeAt Q m m' s (s.relocate f) := h s trivial rfl
  unfold AgreeAt at hs
  generalize m.run.run s = x at hs ⊢
  generalize m'.run.run (s.relocate f) = y at hs ⊢
  rcases hs with ⟨-, rfl, -⟩ | ⟨-, rfl, rfl⟩ | hx
  · rfl
  · rfl
  · exact hx.elim

end Run

/-! ## Moved places as an accord -/

/-- Runs on programs and stores whose places are moved. -/
def relocating (f : Location → Location) : Execution where
  toAccord := .relocating f
  material := .whole
  move := f
  carry := Function.relocate f
  home := f
  Sees _ _ := True
  Held := Any
  Allows _ := True
  Returns := Any
  scopes h := by rw [h]; rfl
  tensors h := by rw [h]; rfl
  functions h name := by rw [h, Store.function?_relocate]
  calls h := by rw [h]; rfl
  sees _ _ := trivial
  held _ _ := trivial
  plain _ := trivial
  bound _ _ := trivial
  cell _ _ := trivial
  missing _ _ _ _ _ _ := rfl
  blames _ := rfl
  tooDeep := rfl
  printTooLong := rfl
  unfinished := rfl
  allowed _ := trivial
  addTensor h _ _ := ⟨trivial, by rw [h]; rfl, trivial⟩
  print _ h _ := ⟨trivial, by rw [h]; rfl⟩
  remove _ h _ _ := ⟨trivial, by rw [h]; rfl⟩
  carries _ := rfl
  defined _ _ := ⟨.first, trivial⟩
  addScope h _ := ⟨trivial, by rw [h]; rfl, trivial⟩
  param _ _ h _ _ _ := ⟨trivial, by rw [h]; rfl, trivial⟩
  returns _ _ := trivial
  returning _ _ _ _ := trivial
  running _ _ := Material.name_whole _
  uncalled _ _ _ := rfl
  setCell h _ _ _ := ⟨trivial, by rw [h]; rfl⟩
  rebind h _ _ _ := ⟨trivial, by rw [h]; rfl⟩

theorem nests_relocating (f : Location → Location) : (relocating f).Nests where
  home := rfl
  push _ _ _ _ h := by rw [h]; rfl
  sees _ _ := trivial
  hosts _ := ⟨fun _ _ h => ⟨trivial, by rw [h]; rfl⟩, id, id⟩
  held _ := trivial

theorem binds_relocating (f : Location → Location) :
    Machine.Binds (relocating f) (fun _ step => step) fun _ step => step := by
  refine Machine.binds_id (fun h _ _ _ => ⟨trivial, by rw [h]; rfl⟩) ?_
  intro s t chain loc name params returns body h _ _ _
  refine ⟨trivial, ?_⟩
  rw [h]
  exact (s.define_relocate f name ⟨params, returns, body, chain⟩).symm

/-! ## Machines -/

/-- **Evaluation does not look at places**, however deep it may nest. -/
theorem machine_relocates (f : Location → Location) (turns levels : Nat) (chain : Chain)
    (stmt : Stmt) : Follows f ((machine turns levels).exec chain stmt)
      ((machine turns levels).exec chain (stmt.relocate f)) :=
  follows_of_agree fun _ => (Machine.machine_executes (nests_relocating f) (binds_relocating f)
    turns (.refl _ levels)).exec 0 trivial trivial

end SpanScript
