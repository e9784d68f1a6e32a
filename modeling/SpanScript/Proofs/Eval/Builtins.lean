import SpanScript.Builtin.Apply
import SpanScript.Proofs.Eval.Accord
import SpanScript.Proofs.Syntax.Nodes
import SpanScript.Proofs.Syntax.Relocate
import SpanScript.Proofs.Value.Tensor

/-!
# Built-in functions

An `Evaluation` is an accord in which expressions can be evaluated: it says how the places
and the functions of the one side are those of the other, which values are held, and what may
be changed.  In every such accord a built-in function goes alike on both sides.  What it
answers is a number, a text or a new tensor, and it is given as many arguments as it takes,
so that no argument is missing.

* `Run.Evaluation`: what evaluating asks of an accord.
* `kind_binary`, `kind_aggregate`, `kind_convert?`: arithmetic, comparison and conversion
  answer no tensors.
* `plainly_binary` and the lemmas beside it: they fail by faults that tell no name.
* `agree_run`, `agree_apply`, `agree_applyToName`: the calls.
-/

namespace SpanScript

open Run Accord

/-! ## Accords for evaluation -/

/-- An accord in which expressions can be evaluated.  They are of a material; their places are
moved on the other side, and so are the functions of the store there. -/
structure Run.Evaluation extends Accord where
  material : Material
  move : Location → Location
  carry : Function → Function
  /-- The chains that may be seen from a store. -/
  Sees : Store → Chain → Prop
  /-- The values that may come up in a store. -/
  Held : Store → Value → Prop
  /-- The built-in functions that may be called. -/
  Allows : Builtin → Prop
  scopes {s t} : Related s t → t.scopes = s.scopes
  tensors {s t} : Related s t → t.tensors = s.tensors
  functions {s t} : Related s t → ∀ name, t.function? name = (s.function? name).map carry
  sees {s t chain} : Sees s chain → Later s t → Sees t chain
  held {s t v} : Held s v → Later s t → Held t v
  plain {s v} : v.kind ≠ .tns → Held s v
  bound {s t chain x v} : Related s t → s.get? chain x = some v → Held s v
  cell {s t ref v} : Related s t → v ∈ (s.tensor ref).cells → Held s v
  missing {u v s t ref ns n} : Related u v → Held u (.tns ref) → (u.tensor ref).offset ns = .ok n →
    Later u s → Related s t → (s.tensor ref).cells[n]? = none →
    Halts (.absent (.cell n)) (.absent (.cell n))
  blames {cause loc} : material.Blames cause loc →
    Halts (.fault cause loc) (.fault cause (move loc))
  tooDeep : Halts .tooDeep .tooDeep
  printTooLong : Halts .printTooLong .printTooLong
  unfinished : Halts .unfinished .unfinished
  allowed {loc op args} : material.expr (.call loc op.name args) → Allows op
  addTensor {s t T} : Related s t → T.Filled → (∀ v ∈ T.cells, Held s v) →
    Later s (s.addTensor T) ∧ Related (s.addTensor T) (t.addTensor T) ∧
      Held (s.addTensor T) (.tns s.tensors.size)
  print {s t} : Allows .print ∨ Allows .println → Related s t → ∀ text,
    Later s (s.print text) ∧ Related (s.print text) (t.print text)
  remove {s t chain x id} : Allows .del → Related s t → Sees s chain →
    s.deleteScope chain x = .ok id →
      Later s (s.remove id x) ∧ Related (s.remove id x) (t.remove id x)

namespace Builtin

/-! ## Answers that are no tensors -/

theorem kind_onPair {op : Builtin} {onInt : Int → Int → Except Fault Int}
    {onFlt : Float → Float → Except Fault Float} {a b v : Value}
    (h : onPair op onInt onFlt a b = .ok v) : v.kind ≠ .tns := by
  unfold onPair at h
  split at h
  · next a b =>
    cases hi : onInt a b with
    | ok n => rw [hi] at h; cases h; nofun
    | error x => rw [hi] at h; cases h
  · next a b =>
    cases hf : onFlt a b with
    | ok x => rw [hf] at h; cases h; nofun
    | error x => rw [hf] at h; cases h
  · cases h

theorem kind_onNumber {op : Builtin} {onInt : Int → Int} {onFlt : Float → Float} {a v : Value}
    (h : onNumber op onInt onFlt a = .ok v) : v.kind ≠ .tns := by
  unfold onNumber at h
  split at h
  · cases h; nofun
  · cases h; nofun
  · cases h

theorem kind_compare {op : Builtin} {onInt : Int → Int → Bool} {onFlt : Float → Float → Bool}
    {onStr : String → String → Bool} {a b v : Value}
    (h : compare op onInt onFlt onStr a b = .ok v) : v.kind ≠ .tns := by
  unfold compare at h
  split at h
  · cases h; nofun
  · cases h; nofun
  · cases h; nofun
  · cases h

theorem kind_binary {op : Builtin} {a b v : Value} (h : binary op a b = .ok v) :
    v.kind ≠ .tns := by
  unfold binary at h
  split at h
  case h_1 | h_2 | h_3 | h_4 | h_5 | h_6 => exact kind_onPair h
  all_goals exact kind_compare h

theorem kind_fold {op : Builtin} {onInt : Int → List Int → Int}
    {onFlt : Float → List Float → Float} {values : List Value} {v : Value}
    (h : fold op onInt onFlt values = .ok v) : v.kind ≠ .tns := by
  unfold fold at h
  split at h
  · cases h; nofun
  · cases h; nofun
  · cases h

theorem kind_aggregate {op : Builtin} {values : List Value} {v : Value}
    (h : aggregate op values = .ok v) : v.kind ≠ .tns := by
  unfold aggregate at h
  split at h <;> exact kind_fold h

theorem kind_convert? {op : Builtin} {a v : Value} (h : convert? op a = some v) :
    v.kind ≠ .tns := by
  unfold convert? at h
  split at h <;> (obtain ⟨_, -, rfl⟩ := Option.map_eq_some_iff.mp h; nofun)

/-! ## Faults that tell no name -/

/-- A fault that tells no name, or an answer. -/
def Plainly {α : Type} (x : Except Fault α) : Prop :=
  ∀ cause, x = .error cause → cause.plain = true

theorem plainly_ok {α : Type} (a : α) : Plainly (.ok a) := fun _ h => nomatch h

theorem plainly_error {α : Type} {cause : Fault} (h : cause.plain = true) :
    Plainly (.error cause : Except Fault α) := fun _ he => Except.error.inj he ▸ h

theorem plainly_guard {α : Type} {c : Prop} [Decidable c] {cause : Fault} {x : Except Fault α}
    (h : cause.plain = true) (hx : Plainly x) : Plainly (if c then .error cause else x) := by
  split
  · exact plainly_error h
  · exact hx

theorem Plainly.bind {α β : Type} {x : Except Fault α} {k : α → Except Fault β} (h : Plainly x)
    (hk : ∀ a, Plainly (k a)) : Plainly (x >>= k) := by
  cases x with
  | ok a => exact hk a
  | error cause => exact fun _ he => h _ (congrArg _ (Except.error.inj he))

theorem Plainly.map {α β : Type} {x : Except Fault α} (h : Plainly x) (k : α → β) :
    Plainly (x.map k) := by
  cases x with
  | ok a => exact plainly_ok _
  | error cause => exact fun _ he => h _ (congrArg _ (Except.error.inj he))

theorem plainly_mapM {α β : Type} {k : α → Except Fault β} (hk : ∀ a, Plainly (k a))
    (xs : List α) : Plainly (xs.mapM k) := by
  induction xs with
  | nil => exact plainly_ok _
  | cons x xs ih =>
    rw [List.mapM_cons]
    exact (hk x).bind fun _ => ih.bind fun _ => plainly_ok _

theorem plainly_string (op : Builtin) (v : Value) : Plainly (string op v) := by
  cases v with
  | str t => exact plainly_ok t
  | _ => exact plainly_error rfl

theorem plainly_integer (op : Builtin) (v : Value) : Plainly (integer op v) := by
  cases v with
  | int n => exact plainly_ok n
  | _ => exact plainly_error rfl

theorem plainly_tensorOf (op : Builtin) (v : Value) : Plainly (tensorOf op v) := by
  cases v with
  | tns ref => exact plainly_ok ref
  | _ => exact plainly_error rfl

theorem plainly_dimensions (op : Builtin) (vs : List Value) : Plainly (dimensions op vs) := by
  induction vs with
  | nil => exact plainly_ok _
  | cons v vs ih => exact (plainly_integer op v).bind fun _ => ih.bind fun _ => plainly_ok _

theorem plainly_shapeOf (op : Builtin) (vs : List Value) : Plainly (shapeOf op vs) :=
  (plainly_dimensions op vs).bind fun _ =>
    plainly_guard rfl (plainly_guard rfl (plainly_ok _))

theorem plainly_onPair {op : Builtin} {onInt : Int → Int → Except Fault Int}
    {onFlt : Float → Float → Except Fault Float} (hi : ∀ a b, Plainly (onInt a b))
    (hf : ∀ a b, Plainly (onFlt a b)) (a b : Value) : Plainly (onPair op onInt onFlt a b) := by
  unfold onPair
  split
  · exact (hi _ _).map _
  · exact (hf _ _).map _
  · split <;> exact plainly_error rfl

theorem plainly_onNumber (op : Builtin) (onInt : Int → Int) (onFlt : Float → Float) (v : Value) :
    Plainly (onNumber op onInt onFlt v) := by
  cases v with
  | int n => exact plainly_ok _
  | flt x => exact plainly_ok _
  | _ => exact plainly_error rfl

theorem plainly_compare (op : Builtin) (onInt : Int → Int → Bool) (onFlt : Float → Float → Bool)
    (onStr : String → String → Bool) (a b : Value) :
    Plainly (compare op onInt onFlt onStr a b) := by
  unfold compare
  split
  case h_4 => exact plainly_error rfl
  all_goals exact plainly_ok _

theorem plainly_binary (op : Builtin) (a b : Value) : Plainly (binary op a b) := by
  unfold binary
  split
  -- addition, subtraction and multiplication do not fail on numbers of one kind
  case h_1 | h_2 | h_3 =>
    exact plainly_onPair (fun _ _ => plainly_ok _) (fun _ _ => plainly_ok _) a b
  case h_4 =>
    exact plainly_onPair (fun _ _ => plainly_guard rfl (plainly_ok _))
      (fun _ _ => plainly_guard rfl (plainly_ok _)) a b
  case h_5 =>
    exact plainly_onPair (fun _ _ => plainly_guard rfl (plainly_ok _))
      (fun _ _ => plainly_guard rfl (plainly_guard rfl (plainly_ok _))) a b
  case h_6 =>
    refine plainly_onPair (fun _ _ => plainly_guard rfl (plainly_ok _)) (fun _ _ => ?_) a b
    exact plainly_guard rfl
      (plainly_guard rfl (plainly_guard rfl (plainly_ok _)))
  all_goals exact plainly_compare _ _ _ _ a b

theorem plainly_aggregate (op : Builtin) (vs : List Value) : Plainly (aggregate op vs) := by
  unfold aggregate
  split <;>
    · unfold fold
      split
      case h_3 => exact plainly_error rfl
      all_goals exact plainly_ok _

/-! ## Numbers of arguments -/

def Takes (op : Builtin) (count : Nat) : Prop :=
  op.least ≤ count ∧ ∀ most ∈ op.greatest, count ≤ most

/-- A function takes any number of arguments, or one, or two; only `REPLACE` takes three. -/
theorem Takes.shape {op : Builtin} {vs : List Value} (h : op.Takes vs.length) :
    op.greatest = none ∨ (∃ v, vs = [v] ∧ op.least = 1) ∨ (∃ a b, vs = [a, b]) ∨
      ∃ a b c, vs = [a, b, c] ∧ op = .replace := by
  cases hg : op.greatest with
  | none => exact .inl rfl
  | some most =>
    obtain ⟨hleast, hmost⟩ : 1 ≤ op.least ∧ (most ≤ 2 ∨ most = 3 ∧ op = .replace) := by
      cases op <;> cases hg <;> decide
    have hl := h.1
    have hle := h.2 most hg
    right
    rcases vs with _ | ⟨a, _ | ⟨b, _ | ⟨c, _ | ⟨d, rest⟩⟩⟩⟩
    · exact absurd (Nat.le_trans hleast hl) (by decide)
    · exact .inl ⟨a, rfl, Nat.le_antisymm hl hleast⟩
    · exact .inr (.inl ⟨a, b, rfl⟩)
    · rcases hmost with hmost | ⟨-, rfl⟩
      · exact absurd (Nat.le_trans hle hmost) (by simp)
      · exact .inr (.inr ⟨a, b, c, rfl, rfl⟩)
    · rcases hmost with hmost | ⟨rfl, -⟩ <;> simp only [List.length_cons] at hle <;> omega

end Builtin

namespace Store

variable {s t : Store} (h : t.scopes = s.scopes) (chain : Chain) (x : String)
include h

theorem scopeOf?_congr : t.scopeOf? chain x = s.scopeOf? chain x := by
  simp only [scopeOf?, scope, h]

theorem get?_congr : t.get? chain x = s.get? chain x := by
  simp only [get?, scopeOf?, scope, h]

theorem deleteScope_congr : t.deleteScope chain x = s.deleteScope chain x := by
  simp only [deleteScope, scopeOf?_congr h]

end Store

namespace Run.Evaluation

variable {α : Type} (S : Evaluation) {s t : Store} {Q : Store → α → Prop} {loc : Location}

/-! ## Steps -/

theorem tensor (h : S.Related s t) (ref : TensorRef) : t.tensor ref = s.tensor ref :=
  Store.tensor_congr (S.tensors h) ref

theorem agree_fail {cause : Fault} (h : S.material.Blames cause loc) :
    S.Agree s Q (fail cause loc) (fail cause (S.move loc)) := agree_throw (S.blames h)

theorem agree_plain {cause : Fault} (h : S.material.Place loc) (hp : cause.plain = true) :
    S.Agree s Q (fail cause loc) (fail cause (S.move loc)) :=
  S.agree_fail (Material.blames_plain hp h)

/-- A fault that tells one name. -/
theorem agree_telling {cause : Fault} {x : String} (h : S.material.Place loc)
    (hx : S.material.Name x)
    (hn : cause.names = [x]) : S.Agree s Q (fail cause loc) (fail cause (S.move loc)) := by
  refine S.agree_fail (Material.blames_telling h ?_ ?_) <;> rw [hn]
  · exact List.cons_ne_nil _ _
  · exact List.forall_mem_singleton.mpr hx

/-- A fault that tells two names. -/
theorem agree_telling_pair {cause : Fault} {x y : String} (h : S.material.Place loc)
    (hx : S.material.Name x)
    (hy : S.material.Name y) (hn : cause.names = [x, y]) :
    S.Agree s Q (fail cause loc) (fail cause (S.move loc)) := by
  refine S.agree_fail (Material.blames_telling h ?_ ?_) <;> rw [hn]
  · exact List.cons_ne_nil _ _
  · exact List.forall_mem_cons.mpr ⟨hx, List.forall_mem_singleton.mpr hy⟩

theorem agree_orFail {x : Except Fault α} (h : S.material.Place loc) (hp : Builtin.Plainly x)
    (hq : ∀ a, x = .ok a → ∀ t, S.Later s t → Q t a) :
    S.Agree s Q (orFail loc x) (orFail (S.move loc) x) := by
  cases x with
  | ok a => exact agree_pure (hq a rfl)
  | error cause => exact S.agree_plain h (hp cause rfl)

theorem agree_checked {x : Except Fault α} (h : S.material.Place loc) (hp : Builtin.Plainly x) :
    S.Agree s Any (orFail loc x) (orFail (S.move loc) x) :=
  S.agree_orFail h hp fun _ _ _ _ => trivial

theorem agree_computed {x : Except Fault Value} (h : S.material.Place loc)
    (hp : Builtin.Plainly x) (hk : ∀ v, x = .ok v → v.kind ≠ .tns) :
    S.Agree s S.Held (orFail loc x) (orFail (S.move loc) x) :=
  S.agree_orFail h hp fun v hv _ _ => S.plain (hk v hv)

theorem agree_value {v : Value} (h : v.kind ≠ .tns) : S.Agree s S.Held (pure v) (pure v) :=
  agree_pure fun _ _ => S.plain h

theorem agree_newTensor {T : Tensor} (hf : T.Filled) (hc : ∀ v ∈ T.cells, S.Held s v) :
    S.Agree s S.Held (newTensor T) (newTensor T) := by
  refine agree_get fun t t' hs hr => ?_
  have hadd := S.addTensor hr hf fun v hv => S.held (hc v hv) hs
  rw [S.tensors hr]
  exact .answer hadd.1 hadd.2.1 hadd.2.2

theorem agree_delete {chain : Chain} {x : String} (ha : S.Allows .del) (hc : S.Sees s chain)
    (h : S.material.Place loc) (hx : S.material.Name x) :
    S.Agree s Any (delete loc chain x) (delete (S.move loc) chain x) := by
  refine agree_get fun t t' ht hr => ?_
  rw [Store.deleteScope_congr (S.scopes hr)]
  cases hid : t.deleteScope chain x with
  | ok id =>
    have hremove := S.remove ha hr (S.sees hc ht) hid
    exact agreeAt_modify hremove.1 hremove.2
  | error cause =>
    refine S.agree_telling h hx ?_ (S.refl t) hr
    unfold Store.deleteScope at hid
    split at hid <;> cases hid
    rfl

section

variable {levels levels' : Nat} (hl : Reaches S.Excepted levels levels')
include hl

theorem agree_text (v : Value) : S.Agree s Any (text levels v) (text levels' v) :=
  Accord.agree_text S.tensors S.tooDeep S.printTooLong hl v

theorem agree_truth (v : Value) : S.Agree s Any (truth levels v) (truth levels' v) :=
  Accord.agree_truth S.tensors S.tooDeep S.printTooLong hl v

theorem agree_equal (a b : Value) : S.Agree s Any (equal levels a b) (equal levels' a b) :=
  Accord.agree_equal S.tensors S.tooDeep S.printTooLong hl a b

end

end Run.Evaluation

/-! ## Calls -/

namespace Builtin

variable (S : Evaluation) {s : Store} {levels levels' : Nat} {loc : Location}

section

variable (hl : Reaches S.Excepted levels levels')
include hl

theorem agree_truthOfEach (vs : List Value) (p : List Bool → Bool) :
    S.Agree s S.Held
      (do
        let truths ← truthOfEach levels vs
        pure (Value.ofBool (p truths)))
      (do
        let truths ← truthOfEach levels' vs
        pure (.ofBool (p truths))) :=
  (agree_each fun _ _ => S.agree_truth hl _).bind fun _ _ _ _ => S.agree_value nofun

theorem agree_printValues (ha : S.Allows .print ∨ S.Allows .println) (vs : List Value)
    (ending : String) :
    S.Agree s S.Held (printValues levels vs ending) (printValues levels' vs ending) := by
  refine (agree_each fun _ _ => S.agree_text hl _).bind fun _ texts _ _ => ?_
  exact (agree_modify fun _ _ _ hr => S.print ha hr _).bind fun _ _ _ _ => S.agree_value nofun

end

theorem agree_rowOfTexts (texts : List (List Char)) :
    S.Agree s S.Held (newTensor (rowOfTexts texts)) (newTensor (rowOfTexts texts)) := by
  refine S.agree_newTensor (Tensor.filled_row _) fun v hv => S.plain ?_
  obtain ⟨t, -, rfl⟩ := List.mem_map.mp (List.mem_toArray.mp hv)
  nofun

variable (h : S.material.Place loc)
include h

theorem agree_aggregate (op : Builtin) (vs : List Value) :
    S.Agree s S.Held
      (do
        let s ← get
        Run.orFail loc (aggregate op (operands s vs)))
      (do
        let s ← get
        Run.orFail (S.move loc) (aggregate op (operands s vs))) := by
  refine agree_read fun t t' _ hr => ?_
  have hsame : operands t' vs = operands t vs := by
    unfold operands
    split
    · rw [S.tensor hr]
    · rfl
  rw [hsame]
  exact S.agree_computed h (plainly_aggregate op _) fun _ => kind_aggregate

theorem agree_splitText (text : Value) (sep : Option Value) :
    S.Agree s S.Held (splitText loc text sep) (splitText (S.move loc) text sep) := by
  refine (S.agree_checked h (plainly_string _ _)).bind fun _ _ _ _ => ?_
  cases sep with
  | none => exact agree_rowOfTexts S _
  | some sep =>
    refine (S.agree_checked h (plainly_string _ _)).bind fun _ _ _ _ => ?_
    exact agree_ite (fun _ => S.agree_plain h rfl) fun _ => agree_rowOfTexts S _

theorem agree_lengthAlong (tensor : Value) (axis : Option Value) :
    S.Agree s S.Held (lengthAlong loc tensor axis) (lengthAlong (S.move loc) tensor axis) := by
  have hlength (t : Store) (ref : TensorRef) (n : Int) : S.Agree t S.Held
      (do
        let s ← get
        let shape := (s.tensor ref).shape
        if 1 ≤ n ∧ n ≤ shape.length then pure (Value.int (shape[(n - 1).toNat]?.getD 0))
        else Run.fail .noSuchDimension loc)
      (do
        let s ← get
        let shape := (s.tensor ref).shape
        if 1 ≤ n ∧ n ≤ shape.length then pure (Value.int (shape[(n - 1).toNat]?.getD 0))
        else Run.fail .noSuchDimension (S.move loc)) := by
    refine agree_read fun u u' _ hr => ?_
    rw [S.tensor hr]
    exact agree_ite (fun _ => S.agree_value nofun) fun _ => S.agree_plain h rfl
  refine (S.agree_checked h (plainly_tensorOf _ _)).bind fun t ref _ _ => ?_
  cases axis with
  | none => exact (agree_any (1 : Int)).bind fun u n _ _ => hlength u ref n
  | some v =>
    exact (S.agree_checked h (plainly_integer _ _)).bind fun u n _ _ => hlength u ref n

variable (hl : Reaches S.Excepted levels levels')
include hl

theorem agree_joinValues (vs : List Value) :
    S.Agree s S.Held (joinValues levels loc vs) (joinValues levels' (S.move loc) vs) := by
  have hjoin (t : Store) (ref : TensorRef) (sep : String) : S.Agree t S.Held
      (do
        let s ← get
        let texts ← (s.tensor ref).cells.toList.mapM (Run.text levels)
        pure (Value.str (String.ofList (Separator.join sep.toList (texts.map String.toList)))))
      (do
        let s ← get
        let texts ← (s.tensor ref).cells.toList.mapM (Run.text levels')
        pure (.str (String.ofList (Separator.join sep.toList (texts.map String.toList))))) := by
    refine agree_read fun u u' _ hr => ?_
    rw [S.tensor hr]
    exact (agree_each fun _ _ => S.agree_text hl _).bind fun _ _ _ _ => S.agree_value nofun
  unfold joinValues
  split
  · next ref rest =>
    refine agree_ite (fun _ => S.agree_plain h rfl) fun _ => ?_
    cases rest with
    | nil => exact (agree_any "").bind fun t sep _ _ => hjoin t ref sep
    | cons v rest =>
      exact (S.agree_checked h (plainly_string _ _)).bind fun t sep _ _ => hjoin t ref sep
  · exact (S.agree_checked h (plainly_mapM (plainly_string _) _)).bind fun _ _ _ _ =>
      S.agree_value nofun

theorem agree_convertValue (op : Builtin) (v : Value) :
    S.Agree s S.Held (convertValue levels loc op v) (convertValue levels' (S.move loc) op v) := by
  unfold convertValue
  split
  · exact S.agree_plain h rfl
  · split
    · next hr => exact S.agree_value (kind_convert? hr)
    · exact (S.agree_text hl _).bind fun _ _ _ _ => S.agree_plain h rfl

/-- **A built-in function goes alike on both sides**, on as many arguments as it takes. -/
theorem agree_run {op : Builtin} (ha : S.Allows op) (hop : op.takesName = false)
    {vs : List Value} (hn : op.Takes vs.length) (hv : ∀ v ∈ vs, S.Held s v) :
    S.Agree s S.Held (run levels loc op vs) (run levels' (S.move loc) op vs) := by
  have hstring (op : Builtin) (v : Value) (t : Store) :
      S.Agree t Any (orFail loc (string op v)) (orFail (S.move loc) (string op v)) :=
    S.agree_checked h (plainly_string op v)
  unfold run
  -- the cases are the functions in the order of `run`, each with its arguments
  split
  -- `NEG`, `ABS`
  case h_1 | h_2 => exact S.agree_computed h (plainly_onNumber _ _ _ _) fun _ => kind_onNumber
  -- `EQ`
  case h_3 => exact (S.agree_equal hl _ _).bind fun _ _ _ _ => S.agree_value nofun
  -- `AND`, `OR`, `BOOL`, `NOT`
  case h_4 | h_5 | h_6 | h_7 => exact agree_truthOfEach S hl _ _
  -- `SUM`, `MAX`, `MIN`
  case h_8 | h_9 | h_10 => exact agree_aggregate S h _ _
  -- the conversions
  case h_11 | h_12 => exact agree_convertValue S h hl _ _
  case h_13 => exact (S.agree_text hl _).bind fun _ _ _ _ => S.agree_value nofun
  case h_14 => exact S.agree_value nofun
  -- texts
  case h_15 | h_16 | h_17 => exact (hstring _ _ _).bind fun _ _ _ _ => S.agree_value nofun
  case h_18 =>
    exact (hstring _ _ _).bind fun _ _ _ _ => (hstring _ _ _).bind fun _ _ _ _ =>
      (hstring _ _ _).bind fun _ _ _ _ => S.agree_value nofun
  case h_19 => exact agree_joinValues S h hl _
  case h_20 | h_21 => exact agree_splitText S h _ _
  -- tensors
  case h_22 dims fill =>
    refine (S.agree_checked h (plainly_tensorOf _ _)).bind fun t ref ht _ => ?_
    refine agree_read fun u u' hu hr => ?_
    rw [S.tensor hr]
    refine (S.agree_checked h (plainly_shapeOf _ _)).bind fun w shape hw _ => ?_
    refine S.agree_newTensor (Tensor.filled_ofCells Array.size_replicate) fun v hmem => ?_
    rw [(Array.mem_replicate.mp hmem).2]
    exact S.held (hv fill (by simp)) (S.trans (S.trans ht hu) hw)
  case h_23 =>
    refine (S.agree_checked h (plainly_tensorOf _ _)).bind fun t ref _ _ => ?_
    refine agree_read fun u u' _ hr => ?_
    rw [S.tensor hr]
    refine S.agree_newTensor (Tensor.filled_row _) fun v hmem => S.plain ?_
    obtain ⟨n, -, rfl⟩ := List.mem_map.mp (List.mem_toArray.mp hmem)
    nofun
  case h_24 | h_25 => exact agree_lengthAlong S h _ _
  -- `PRINT`, `PRINTLN`, `ASSERT`
  case h_26 => exact agree_printValues S hl (.inl ha) _ _
  case h_27 => exact agree_printValues S hl (.inr ha) _ _
  case h_28 =>
    exact (S.agree_truth hl _).bind fun _ _ _ _ =>
      agree_ite (fun _ => S.agree_value nofun) fun _ => S.agree_plain h rfl
  -- arithmetic and comparison
  case h_29 => exact S.agree_computed h (plainly_binary _ _ _) fun _ => kind_binary
  -- arguments that no function takes
  case h_30 =>
    exfalso
    rcases hn.shape with hmany | ⟨v, rfl, hone⟩ | ⟨a, b, rfl⟩ | ⟨a, b, c, rfl, rfl⟩
    · cases op <;> first | exact absurd hmany (by decide) | simp_all
    · cases op <;> first | exact absurd hop (by decide) | exact absurd hone (by decide) | simp_all
    · exact ‹∀ c d : Value, [a, b] = [c, d] → False› a b rfl
    · exact ‹∀ v old new : Value, Builtin.replace = .replace → [a, b, c] = [v, old, new] → False›
        a b c rfl rfl

omit hl in
theorem agree_checkCount (op : Builtin) (count : Nat) :
    S.Agree s (fun _ _ => op.Takes count) (checkCount loc op count)
      (checkCount (S.move loc) op count) := by
  refine agree_ite (fun _ => S.agree_plain h rfl) fun hleast =>
    agree_ite (fun _ => S.agree_plain h rfl) fun hmost => agree_pure fun _ _ => ?_
  refine ⟨Nat.not_lt.mp hleast, fun most hm => ?_⟩
  rw [Option.mem_def.mp hm] at hmost
  simpa using hmost

/-- **A call of a built-in function goes alike on both sides.** -/
theorem agree_apply {op : Builtin} (ha : S.Allows op) (hop : op.takesName = false)
    {vs : List Value} (hv : ∀ v ∈ vs, S.Held s v) :
    S.Agree s S.Held (apply levels loc op vs) (apply levels' (S.move loc) op vs) :=
  (agree_checkCount S h op _).bind fun _ _ ht hn =>
    agree_run S h hl ha hop hn fun v hmem => S.held (hv v hmem) ht

omit hl in
/-- So does a call of one that takes a name. -/
theorem agree_applyToName {op : Builtin} (ha : S.Allows op) (hop : op.takesName = true)
    {chain : Chain} (hc : S.Sees s chain) {es : List Expr} (he : ∀ e ∈ es, S.material.expr e) :
    S.Agree s S.Held (applyToName loc chain op es)
      (applyToName (S.move loc) chain op (es.map (Expr.relocate S.move))) := by
  unfold applyToName
  rw [List.length_map]
  refine (agree_checkCount S h op _).bind fun t _ ht hn => ?_
  cases es with
  | nil => exact absurd hn.1 (by cases op <;> first | exact absurd hop (by decide) | decide)
  | cons e es =>
    rw [List.map_cons]
    cases e with
    | name place x =>
      have hx : S.material.Name x :=
        Material.name_of_expr (he _ (List.mem_cons_self ..)) (List.mem_cons_self ..)
      rw [Expr.relocate]
      refine agree_ite (fun hdel => ?_) fun _ => agree_read fun u u' _ hr => ?_
      · exact (S.agree_delete (hdel ▸ ha) (S.sees hc ht) h hx).bind fun _ _ _ _ =>
          S.agree_value nofun
      · rw [Store.scopeOf?_congr (S.scopes hr)]
        exact S.agree_value nofun
    | _ =>
      rw [Expr.relocate]
      exact S.agree_plain h rfl

end Builtin

end SpanScript
