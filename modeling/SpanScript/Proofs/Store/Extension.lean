import SpanScript.Proofs.Value.Tensor
import SpanScript.Proofs.Syntax.Calls

/-!
# What a store keeps

A store is sound when everything in it refers to something it holds: values to tensors,
functions to scopes, running calls to functions; and when its tensors are filled.  A
later store extends an earlier one: it holds all that the earlier one held, its tensors
have kept their form, and its variables their kinds.

Only a deletion takes the binding of a variable away.  `D` says whether there may be
one, and without it variables are kept: a store is sound then only if no function of it
calls `DEL`.

* `Store.KeepsKinds`, `Store.KeepsTensors`: what an extension keeps.
* `Store.Sound`, `Store.Extends`: the invariant, and the order of stores.
* `Store.Sound.put`, `Store.Extends.put` and the lemmas beside them: one pair for each
  change that a run can make.
-/

namespace SpanScript

/-! ## Form and kinds -/

/-- Two tensors of one shape, with cells of the same kinds. -/
structure Tensor.SameForm (t u : Tensor) : Prop where
  shape : u.shape = t.shape
  strides : u.strides = t.strides
  kinds : u.cells.map Value.kind = t.cells.map Value.kind

theorem Tensor.SameForm.refl (t : Tensor) : t.SameForm t := ⟨rfl, rfl, rfl⟩

theorem Tensor.SameForm.trans {t u w : Tensor} (h : t.SameForm u) (h' : u.SameForm w) :
    t.SameForm w :=
  ⟨h'.shape.trans h.shape, h'.strides.trans h.strides, h'.kinds.trans h.kinds⟩

theorem Tensor.SameForm.size {t u : Tensor} (h : t.SameForm u) : u.cells.size = t.cells.size := by
  have := congrArg Array.size h.kinds
  rwa [Array.size_map, Array.size_map] at this

instance (t u : Tensor) : Decidable (t.SameForm u) :=
  decidable_of_iff (u.shape = t.shape ∧ u.strides = t.strides ∧
      u.cells.map Value.kind = t.cells.map Value.kind)
    ⟨fun h => ⟨h.1, h.2.1, h.2.2⟩, fun h => ⟨h.shape, h.strides, h.kinds⟩⟩

namespace Store

/-- Every variable of every scope is still bound, to a value of the same kind. -/
def KeepsKinds (s t : Store) : Prop :=
  ∀ id < s.scopes.size, ∀ x v, (s.scope id).lookup x = some v →
    ∃ w, (t.scope id).lookup x = some w ∧ w.kind = v.kind

/-- Every tensor is still held, in the form it had. -/
def KeepsTensors (s t : Store) : Prop :=
  s.tensors.size ≤ t.tensors.size ∧
    ∀ ref < s.tensors.size, (s.tensor ref).SameForm (t.tensor ref)

/-- It is enough to look at the names that are bound. -/
theorem keepsKinds_iff (s t : Store) : s.KeepsKinds t ↔ ∀ id < s.scopes.size,
    ∀ b ∈ s.scope id, ((t.scope id).lookup b.1).map Value.kind
      = ((s.scope id).lookup b.1).map Value.kind := by
  refine forall₂_congr fun id _ => ⟨fun h b hb => ?_, fun h x v hx => ?_⟩
  · obtain ⟨v, hv⟩ := Option.isSome_iff_exists.mp
      (List.lookup_isSome_iff.mpr ⟨b, hb, beq_self_eq_true b.1⟩)
    obtain ⟨w, hw, hk⟩ := h b.1 v hv
    rw [hv, hw, Option.map_some, Option.map_some, hk]
  · obtain ⟨l, r, hl, -⟩ := List.lookup_eq_some_iff.mp hx
    have hb := h (x, v) (hl ▸ List.mem_append_right l (List.mem_cons_self ..))
    rw [hx] at hb
    exact Option.map_eq_some_iff.mp hb

instance : DecidableRel KeepsKinds := fun s t => decidable_of_iff _ (keepsKinds_iff s t).symm

instance : DecidableRel KeepsTensors := fun s t =>
  inferInstanceAs (Decidable (s.tensors.size ≤ t.tensors.size ∧
    ∀ ref < s.tensors.size, (s.tensor ref).SameForm (t.tensor ref)))

end Store

/-! ## Sound stores -/

/-- A value refers to a tensor that is held, if it refers to one. -/
def Value.Held (s : Store) : Value → Prop
  | .tns ref => ref < s.tensors.size
  | _ => True

/-- A chain has a scope in it, and all its scopes are held. -/
def Chain.Held (s : Store) (chain : Chain) : Prop :=
  chain ≠ [] ∧ ∀ id ∈ chain, id < s.scopes.size

/-- An expression deletes nothing, unless that is allowed. -/
def Expr.Admits (D : Prop) (e : Expr) : Prop := e.Calls Builtin.del.name → D

def Stmt.Admits (D : Prop) (s : Stmt) : Prop := s.Calls Builtin.del.name → D

def Function.Admits (D : Prop) (f : Function) : Prop := f.Calls Builtin.del.name → D

namespace Store

/-- Everything in a store refers to something it holds, and its tensors are filled. -/
structure Sound (D : Prop) (s : Store) : Prop where
  scopes : 0 < s.scopes.size
  values : ∀ id, ∀ b ∈ s.scope id, b.2.Held s
  filled : ∀ ref, (s.tensor ref).Filled
  cells : ∀ ref, ∀ v ∈ (s.tensor ref).cells, v.Held s
  closures : ∀ f ∈ s.functions, Chain.Held s f.2.closure
  admits : ∀ f ∈ s.functions, f.2.Admits D
  calls : ∀ name ∈ s.calls, (s.function? name).isSome

/-- What a later store keeps of an earlier one.  The calls that are running are the
same: between the two as many have ended as have begun. -/
structure Extends (D : Prop) (s t : Store) : Prop where
  scopes : s.scopes.size ≤ t.scopes.size
  kinds : ¬ D → s.KeepsKinds t
  tensors : s.KeepsTensors t
  functions : ∀ name, (s.function? name).isSome → (t.function? name).isSome
  calls : t.calls = s.calls

variable {D : Prop} {s t u : Store}

theorem KeepsKinds.refl (s : Store) : s.KeepsKinds s := fun _ _ _ v h => ⟨v, h, rfl⟩

theorem KeepsTensors.refl (s : Store) : s.KeepsTensors s := ⟨Nat.le_refl _, fun _ _ => .refl _⟩

theorem KeepsTensors.trans (h : s.KeepsTensors t) (h' : t.KeepsTensors u) : s.KeepsTensors u :=
  ⟨Nat.le_trans h.1 h'.1,
    fun ref hr => (h.2 ref hr).trans (h'.2 ref (Nat.lt_of_lt_of_le hr h.1))⟩

theorem Extends.refl (s : Store) : s.Extends D s :=
  ⟨Nat.le_refl _, fun _ => .refl s, .refl s, fun _ h => h, rfl⟩

theorem Extends.trans (h : s.Extends D t) (h' : t.Extends D u) : s.Extends D u where
  scopes := Nat.le_trans h.scopes h'.scopes
  kinds hD id hid x v hx := by
    obtain ⟨w, hw, hk⟩ := h.kinds hD id hid x v hx
    obtain ⟨w', hw', hk'⟩ := h'.kinds hD id (Nat.lt_of_lt_of_le hid h.scopes) x w hw
    exact ⟨w', hw', hk'.trans hk⟩
  tensors := h.tensors.trans h'.tensors
  functions name hn := h'.functions name (h.functions name hn)
  calls := h'.calls.trans h.calls

end Store

/-! ## What is held stays held -/

section

variable {D : Prop} {s t : Store}

theorem Value.Held.of_size {v : Value} (h : v.Held s) (ht : s.tensors.size ≤ t.tensors.size) :
    v.Held t := by
  cases v with
  | tns ref => exact Nat.lt_of_lt_of_le h ht
  | _ => trivial

theorem Value.Held.mono {v : Value} (h : v.Held s) (ht : s.Extends D t) : v.Held t :=
  h.of_size ht.tensors.1

theorem Chain.Held.of_size {chain : Chain} (h : Chain.Held s chain)
    (ht : s.scopes.size ≤ t.scopes.size) : Chain.Held t chain :=
  ⟨h.1, fun id hid => Nat.lt_of_lt_of_le (h.2 id hid) ht⟩

theorem Chain.Held.mono {chain : Chain} (h : Chain.Held s chain) (ht : s.Extends D t) :
    Chain.Held t chain := h.of_size ht.scopes

theorem Expr.Admits.part {e e' : Expr} (h : e.Admits D) (he : e' ∈ e.parts) : e'.Admits D :=
  fun hc => h (.part he hc)

theorem Stmt.Admits.expr {st : Stmt} {e : Expr} (h : st.Admits D) (he : e ∈ st.exprs) :
    e.Admits D := fun hc => h (.expr he hc)

theorem Stmt.Admits.part {st st' : Stmt} (h : st.Admits D) (hs : st' ∈ st.parts) :
    st'.Admits D := fun hc => h (.part hs hc)

theorem Stmt.admits_true (st : Stmt) : st.Admits True := fun _ => trivial

/-- The value of a name is held. -/
theorem Store.Sound.lookup (h : s.Sound D) {id : Nat} {x : String} {v : Value}
    (hx : (s.scope id).lookup x = some v) : v.Held s := by
  obtain ⟨l, r, hl, -⟩ := List.lookup_eq_some_iff.mp hx
  exact h.values id (x, v) (hl ▸ List.mem_append_right l (List.mem_cons_self ..))

theorem Store.Sound.get? (h : s.Sound D) {chain : Chain} {x : String} {v : Value}
    (hx : s.get? chain x = some v) : v.Held s := by
  obtain ⟨id, -, hid⟩ := Option.bind_eq_some_iff.mp hx
  exact h.lookup hid

theorem Store.Sound.function? (h : s.Sound D) {name : String} {f : Function}
    (hf : s.function? name = some f) : Chain.Held s f.closure ∧ f.Admits D := by
  obtain ⟨l, r, hl, -⟩ := List.lookup_eq_some_iff.mp hf
  have hmem : (name, f) ∈ s.functions := hl ▸ List.mem_append_right l (List.mem_cons_self ..)
  exact ⟨h.closures _ hmem, h.admits _ hmem⟩

end

/-! ## Bindings -/

/-- Looking a name up in an association list, with the names compared as such. -/
theorem lookup_cons_eq {α : Type} (x : String) (a : α) (rest : List (String × α)) (y : String) :
    ((x, a) :: rest).lookup y = if y = x then some a else rest.lookup y := by
  rw [List.lookup_cons]
  by_cases h : y = x
  · rw [if_pos h, beq_iff_eq.mpr h]
  · rw [if_neg h, beq_eq_false_iff_ne.mpr h]

theorem Scope.lookup_put (x : String) (v : Value) (sc : Scope) (y : String) :
    (Scope.put x v sc).lookup y = if y = x then some v else sc.lookup y := by
  induction sc with
  | nil => rw [Scope.put, lookup_cons_eq]
  | cons b rest ih =>
    obtain ⟨z, w⟩ := b
    rw [Scope.put]
    by_cases hz : z = x
    · subst hz
      rw [if_pos (beq_self_eq_true z), lookup_cons_eq, lookup_cons_eq]
      by_cases hy : y = z
      · rw [if_pos hy, if_pos hy]
      · rw [if_neg hy, if_neg hy, if_neg hy]
    · rw [if_neg (by simpa using hz), lookup_cons_eq, lookup_cons_eq, ih]
      by_cases hy : y = z
      · rw [if_pos hy, if_neg (hy ▸ hz), if_pos hy]
      · rw [if_neg hy, if_neg hy]

theorem Scope.mem_put {x : String} {v : Value} {sc : Scope} {b : String × Value}
    (h : b ∈ Scope.put x v sc) : b.2 = v ∨ b ∈ sc := by
  induction sc with
  | nil =>
    rw [Scope.put, List.mem_singleton] at h
    exact .inl (h ▸ rfl)
  | cons c rest ih =>
    rw [Scope.put] at h
    split at h
    · rcases List.mem_cons.mp h with rfl | h
      · exact .inl rfl
      · exact .inr (List.mem_cons_of_mem _ h)
    · rcases List.mem_cons.mp h with rfl | h
      · exact .inr (List.mem_cons_self ..)
      · exact (ih h).imp id (List.mem_cons_of_mem _)

namespace Store

variable {D : Prop} {s t : Store}

theorem scope_put_self (s : Store) {id : Nat} (h : id < s.scopes.size) (x : String) (v : Value) :
    (s.put id x v).scope id = Scope.put x v (s.scope id) := by
  rw [scope, put, Array.getElem?_modify, if_pos rfl, scope, Array.getElem?_eq_getElem h]
  rfl

theorem scope_put_of_ne (s : Store) {id id' : Nat} (h : id ≠ id') (x : String) (v : Value) :
    (s.put id x v).scope id' = s.scope id' := by
  rw [scope, put, Array.getElem?_modify, if_neg h, scope]

theorem mem_scope_put {id id' : Nat} {x : String} {v : Value} {b : String × Value}
    (h : b ∈ (s.put id x v).scope id') : b.2 = v ∨ b ∈ s.scope id' := by
  by_cases hid : id = id'
  · subst hid
    by_cases hlt : id < s.scopes.size
    · rw [scope_put_self s hlt] at h
      exact Scope.mem_put h
    · rw [scope, put, Array.getElem?_modify, if_pos rfl,
        Array.getElem?_eq_none (Nat.not_lt.mp hlt)] at h
      cases h
  · rw [scope_put_of_ne s hid] at h
    exact .inr h

theorem size_put (s : Store) (id : Nat) (x : String) (v : Value) :
    (s.put id x v).scopes.size = s.scopes.size := Array.size_modify

theorem Sound.put (h : s.Sound D) (id : Nat) (x : String) {v : Value} (hv : v.Held s) :
    (s.put id x v).Sound D where
  scopes := by rw [size_put]; exact h.scopes
  values id' b hb := by
    rcases mem_scope_put hb with hb | hb
    · exact hb ▸ hv.of_size (Nat.le_refl _)
    · exact (h.values id' b hb).of_size (Nat.le_refl _)
  filled := h.filled
  cells ref w hw := (h.cells ref w hw).of_size (Nat.le_refl _)
  closures f hf := (h.closures f hf).of_size (Nat.le_of_eq (s.size_put id x v).symm)
  admits := h.admits
  calls := h.calls

/-- A variable keeps its kind when it is bound again to a value of that kind. -/
theorem Extends.put (s : Store) (id : Nat) (x : String) {v : Value}
    (h : ¬ D → ∀ old, (s.scope id).lookup x = some old → v.kind = old.kind) :
    s.Extends D (s.put id x v) where
  scopes := Nat.le_of_eq (s.size_put id x v).symm
  kinds hD id' hid' y w hy := by
    by_cases hid : id = id'
    · subst hid
      rw [scope_put_self s hid', Scope.lookup_put]
      by_cases hxy : y = x
      · subst hxy
        exact ⟨v, if_pos rfl, h hD w hy⟩
      · exact ⟨w, by rw [if_neg hxy, hy], rfl⟩
    · exact ⟨w, by rw [scope_put_of_ne s hid, hy], rfl⟩
  tensors := .refl s
  functions _ hf := hf
  calls := rfl

/-- Whatever is bound in a scope that was not there yet, nothing changes for the earlier
store. -/
theorem Extends.put_new (h : s.Extends D t) {id : Nat} (hid : s.scopes.size ≤ id) (x : String)
    (v : Value) : s.Extends D (t.put id x v) where
  scopes := by rw [size_put]; exact h.scopes
  kinds hD id' hid' y w hy := by
    rw [scope_put_of_ne t (by omega)]
    exact h.kinds hD id' hid' y w hy
  tensors := h.tensors
  functions := h.functions
  calls := h.calls

theorem mem_scope_remove {id id' : Nat} {x : String} {b : String × Value}
    (h : b ∈ (s.remove id x).scope id') : b ∈ s.scope id' := by
  unfold scope remove at h
  rw [Array.getElem?_modify] at h
  split at h
  · next hid =>
    subst hid
    cases hs : s.scopes[id]? with
    | none => rw [hs] at h; cases h
    | some sc =>
      rw [hs] at h
      rw [scope, hs]
      exact (List.mem_filter.mp h).1
  · exact h

theorem size_remove (s : Store) (id : Nat) (x : String) :
    (s.remove id x).scopes.size = s.scopes.size := Array.size_modify

theorem Sound.remove (h : s.Sound D) (id : Nat) (x : String) : (s.remove id x).Sound D where
  scopes := by rw [size_remove]; exact h.scopes
  values id' b hb := (h.values id' b (mem_scope_remove hb)).of_size (Nat.le_refl _)
  filled := h.filled
  cells ref w hw := (h.cells ref w hw).of_size (Nat.le_refl _)
  closures f hf := (h.closures f hf).of_size (Nat.le_of_eq (s.size_remove id x).symm)
  admits := h.admits
  calls := h.calls

theorem Extends.remove (s : Store) (hD : D) (id : Nat) (x : String) :
    s.Extends D (s.remove id x) where
  scopes := Nat.le_of_eq (s.size_remove id x).symm
  kinds h := absurd hD h
  tensors := .refl s
  functions _ hf := hf
  calls := rfl

theorem scope_addScope (s : Store) (id : Nat) : s.addScope.scope id = s.scope id := by
  unfold scope addScope
  rw [Array.getElem?_push]
  split
  · next h => rw [h, Array.getElem?_eq_none (Nat.le_refl _)]; rfl
  · rfl

theorem Sound.addScope (h : s.Sound D) : s.addScope.Sound D where
  scopes := by rw [Store.addScope, Array.size_push]; omega
  values id b hb := by
    rw [scope_addScope] at hb
    exact (h.values id b hb).of_size (Nat.le_refl _)
  filled := h.filled
  cells ref w hw := (h.cells ref w hw).of_size (Nat.le_refl _)
  closures f hf := (h.closures f hf).of_size (by rw [Store.addScope, Array.size_push]; omega)
  admits := h.admits
  calls := h.calls

theorem Extends.addScope (s : Store) : s.Extends D s.addScope where
  scopes := by rw [Store.addScope, Array.size_push]; omega
  kinds _ id _ x v hx := ⟨v, by rw [scope_addScope, hx], rfl⟩
  tensors := .refl s
  functions _ hf := hf
  calls := rfl

/-! ## Tensors -/

theorem tensor_addTensor (s : Store) (t : Tensor) (ref : TensorRef) :
    (s.addTensor t).tensor ref = if ref = s.tensors.size then t else s.tensor ref := by
  unfold tensor addTensor
  rw [Array.getElem?_push]
  split <;> rfl

theorem Sound.addTensor (h : s.Sound D) {t : Tensor} (ht : t.Filled)
    (hc : ∀ v ∈ t.cells, v.Held s) : (s.addTensor t).Sound D := by
  have hsize : s.tensors.size ≤ (s.addTensor t).tensors.size := by
    rw [Store.addTensor, Array.size_push]
    omega
  refine { scopes := h.scopes, closures := h.closures, admits := h.admits, calls := h.calls,
           values := fun id b hb => (h.values id b hb).of_size hsize, filled := fun ref => ?_,
           cells := fun ref v hv => ?_ }
  · rw [tensor_addTensor]
    split
    · exact ht
    · exact h.filled ref
  · rw [tensor_addTensor] at hv
    split at hv
    · exact (hc v hv).of_size hsize
    · exact (h.cells ref v hv).of_size hsize

theorem Extends.addTensor (s : Store) (t : Tensor) : s.Extends D (s.addTensor t) where
  scopes := Nat.le_refl _
  kinds _ := .refl s
  tensors := by
    refine ⟨?_, fun ref hr => ?_⟩
    · rw [Store.addTensor, Array.size_push]
      omega
    · rw [tensor_addTensor, if_neg (Nat.ne_of_lt hr)]
      exact .refl _
  functions _ hf := hf
  calls := rfl

theorem tensor_setCell (s : Store) (ref ref' : TensorRef) (offset : Nat) (v : Value) :
    (s.setCell ref offset v).tensor ref' = if ref = ref' then
      { s.tensor ref' with cells := (s.tensor ref').cells.setIfInBounds offset v }
      else s.tensor ref' := by
  unfold tensor setCell
  rw [Array.getElem?_modify]
  split
  · cases s.tensors[ref']? <;> rfl
  · rfl

theorem size_setCell (s : Store) (ref : TensorRef) (offset : Nat) (v : Value) :
    (s.setCell ref offset v).tensors.size = s.tensors.size := Array.size_modify

/-- Another value of the same kind in a cell leaves the form as it is. -/
theorem sameForm_setCell (s : Store) (ref ref' : TensorRef) {offset : Nat} {old v : Value}
    (ho : (s.tensor ref).cells[offset]? = some old) (hk : old.kind = v.kind) :
    (s.tensor ref').SameForm ((s.setCell ref offset v).tensor ref') := by
  rw [tensor_setCell]
  split
  · next h =>
    subst h
    refine ⟨rfl, rfl, ?_⟩
    rw [Array.map_setIfInBounds]
    refine Array.ext_getElem? fun i => ?_
    rw [Array.getElem?_setIfInBounds]
    split
    · next hi =>
      subst hi
      have hlt := (Array.getElem?_eq_some_iff.mp ho).1
      rw [if_pos (by rwa [Array.size_map]), Array.getElem?_map, ho, Option.map_some, hk]
    · rfl
  · exact .refl _

theorem Sound.setCell (h : s.Sound D) {ref : TensorRef} {offset : Nat} {old v : Value}
    (ho : (s.tensor ref).cells[offset]? = some old) (hk : old.kind = v.kind) (hv : v.Held s) :
    (s.setCell ref offset v).Sound D := by
  have hsize := Nat.le_of_eq (s.size_setCell ref offset v).symm
  refine { scopes := h.scopes, closures := h.closures, admits := h.admits, calls := h.calls,
           values := fun id b hb => (h.values id b hb).of_size hsize, filled := fun ref' => ?_,
           cells := fun ref' w hw => ?_ }
  · have hf := s.sameForm_setCell ref ref' ho hk
    refine ⟨?_, ?_⟩
    · rw [hf.size, hf.shape]
      exact (h.filled ref').size
    · rw [hf.strides, hf.shape]
      exact (h.filled ref').strides
  · rw [tensor_setCell] at hw
    split at hw
    · rcases Array.mem_or_eq_of_mem_setIfInBounds hw with hw | rfl
      · exact (h.cells ref' w hw).of_size hsize
      · exact hv.of_size hsize
    · exact (h.cells ref' w hw).of_size hsize

theorem Extends.setCell (s : Store) {ref : TensorRef} {offset : Nat} {old v : Value}
    (ho : (s.tensor ref).cells[offset]? = some old) (hk : old.kind = v.kind) :
    s.Extends D (s.setCell ref offset v) where
  scopes := Nat.le_refl _
  kinds _ := .refl s
  tensors := ⟨Nat.le_of_eq (s.size_setCell ref offset v).symm,
    fun ref' _ => s.sameForm_setCell ref ref' ho hk⟩
  functions _ hf := hf
  calls := rfl

/-! ## Functions, calls and printing -/

theorem function?_define (s : Store) (name : String) (f : Function) (x : String) :
    (s.define name f).function? x = if x = name then some f else s.function? x := by
  rw [function?, define, lookup_cons_eq]
  by_cases hx : x = name
  · rw [if_pos hx, if_pos hx]
  · rw [if_neg hx, if_neg hx]
    show (s.functions.filter fun g => g.1 != name).lookup x = s.functions.lookup x
    -- the functions of the name are left out, and they are not looked at
    induction s.functions with
    | nil => rfl
    | cons g rest ih =>
      obtain ⟨y, F⟩ := g
      rw [List.filter_cons, lookup_cons_eq]
      by_cases hy : y = name
      · rw [if_neg (by simpa using hy), ih, if_neg (hy ▸ hx)]
      · rw [if_pos (by simpa using hy), lookup_cons_eq, ih]

theorem isSome_function?_define {s : Store} {name x : String} {f : Function}
    (h : (s.function? x).isSome) : ((s.define name f).function? x).isSome := by
  rw [function?_define]
  split
  · rfl
  · exact h

theorem Sound.define (h : s.Sound D) (name : String) {f : Function} (hc : Chain.Held s f.closure)
    (ha : f.Admits D) : (s.define name f).Sound D := by
  have hmem : ∀ g ∈ (s.define name f).functions, g.2 = f ∨ g ∈ s.functions := by
    intro g hg
    rcases List.mem_cons.mp hg with rfl | hg
    · exact .inl rfl
    · exact .inr (List.mem_filter.mp hg).1
  refine { scopes := h.scopes, values := h.values, filled := h.filled, cells := h.cells,
           closures := fun g hg => ?_, admits := fun g hg => ?_,
           calls := fun x hx => isSome_function?_define (h.calls x hx) }
  · rcases hmem g hg with he | hg
    · exact he ▸ hc
    · exact h.closures g hg
  · rcases hmem g hg with he | hg
    · exact he ▸ ha
    · exact h.admits g hg

theorem Extends.define (s : Store) (name : String) (f : Function) :
    s.Extends D (s.define name f) where
  scopes := Nat.le_refl _
  kinds _ := .refl s
  tensors := .refl s
  functions _ hf := isSome_function?_define hf
  calls := rfl

theorem Sound.print (h : s.Sound D) (text : String) : (s.print text).Sound D := ⟨h.scopes,
  h.values, h.filled, h.cells, h.closures, h.admits, h.calls⟩

theorem Extends.print (s : Store) (text : String) : s.Extends D (s.print text) :=
  ⟨Nat.le_refl _, fun _ => .refl s, .refl s, fun _ hf => hf, rfl⟩

/-- A store is as sound with other calls running, if these are calls of functions. -/
theorem Sound.withCalls (h : s.Sound D) {calls : List String}
    (hc : ∀ name ∈ calls, (s.function? name).isSome) : { s with calls := calls }.Sound D :=
  ⟨h.scopes, h.values, h.filled, h.cells, h.closures, h.admits, hc⟩

/-- Two stores are in the same relation when the same calls are running in both. -/
theorem Extends.withCalls (h : s.Extends D t) (calls : List String) :
    { s with calls := calls }.Extends D { t with calls := calls } :=
  ⟨h.scopes, h.kinds, h.tensors, h.functions, rfl⟩

end Store

end SpanScript
