import SpanScript.Value

/-!
# Filled tensors

A tensor is filled when it has a cell for every list of indices in its shape and its
strides are those of row-major order.  In a filled tensor an index that is found valid
is the index of a cell.

* `stridesOf_eq_rowMajor`: laying the strides down from the last dimension on makes each
  of them the product of the dimensions behind its own.
* `filled_ofCells`, `filled_row`: the tensors that programs make are filled.
* `Filled.offset_lt`: offsets are inside.
-/

namespace SpanScript.Tensor

/-! ## Strides -/

/-- The strides of row-major order: for each dimension the number of cells in one
step along it. -/
def rowMajor (shape : List Nat) : List Nat :=
  (List.range shape.length).map fun k => volume (shape.drop (k + 1))

theorem volume_cons (dim : Nat) (shape : List Nat) :
    volume (dim :: shape) = dim * volume shape := rfl

theorem volume_eq_zero_iff (shape : List Nat) : volume shape = 0 ↔ 0 ∈ shape := by
  induction shape with
  | nil => simp [volume]
  | cons dim shape ih => rw [volume_cons, Nat.mul_eq_zero, ih, List.mem_cons, eq_comm]

/-- Laying strides down keeps the product of the dimensions passed beside them. -/
theorem foldr_strides (shape : List Nat) :
    shape.foldr (fun dim (strides, step) => (step :: strides, step * dim)) ([], 1)
      = (stridesOf shape, volume shape) := by
  induction shape with
  | nil => rfl
  | cons dim shape ih =>
    unfold stridesOf
    rw [List.foldr_cons, ih, volume_cons, Nat.mul_comm]

theorem stridesOf_cons (dim : Nat) (shape : List Nat) :
    stridesOf (dim :: shape) = volume shape :: stridesOf shape := by
  rw [stridesOf, List.foldr_cons, foldr_strides]

theorem stridesOf_eq_rowMajor (shape : List Nat) : stridesOf shape = rowMajor shape := by
  induction shape with
  | nil => rfl
  | cons dim shape ih =>
    rw [stridesOf_cons, ih, rowMajor, rowMajor, List.length_cons, List.range_succ_eq_map,
      List.map_cons, List.map_map]
    rfl

/-! ## Filled tensors -/

/-- A tensor has exactly the cells of its shape, in row-major order. -/
structure Filled (t : Tensor) : Prop where
  size : t.cells.size = volume t.shape
  strides : t.strides = rowMajor t.shape

instance (t : Tensor) : Decidable t.Filled :=
  decidable_of_iff (t.cells.size = volume t.shape ∧ t.strides = rowMajor t.shape)
    ⟨fun h => ⟨h.1, h.2⟩, fun h => ⟨h.1, h.2⟩⟩

theorem filled_ofCells {shape : List Nat} {cells : Array Value}
    (h : cells.size = volume shape) : (ofCells shape cells).Filled :=
  ⟨h, stridesOf_eq_rowMajor shape⟩

theorem filled_row (cells : List Value) : (row cells).Filled := by
  refine filled_ofCells ?_
  rw [List.size_toArray, volume_cons, volume, List.foldr_nil, Nat.mul_one]

/-- Only a dimension of no length leaves a tensor without cells. -/
theorem Filled.zero_mem {t : Tensor} (h : t.Filled) (he : t.cells = #[]) : 0 ∈ t.shape := by
  rw [← volume_eq_zero_iff, ← h.size, he]
  rfl

/-! ## Offsets -/

theorem position_lt {index : Int} {dim p : Nat} (h : position index dim = .ok p) : p < dim := by
  unfold position at h
  split at h
  · cases h
  · dsimp only at h
    generalize (if index < 0 then index + dim + 1 else index) = i at h
    split at h
    · next hi =>
      cases h
      omega
    · cases h

/-- Positions inside their dimensions add up to a number below the volume. -/
theorem sumPositions_lt {indices : List Int} {shape : List Nat} {n : Nat}
    (hl : indices.length = shape.length)
    (h : sumPositions indices shape (stridesOf shape) = .ok n) : n < volume shape := by
  induction shape generalizing indices n with
  | nil =>
    cases List.length_eq_zero_iff.mp hl
    cases h
    exact Nat.one_pos
  | cons dim shape ih =>
    cases indices with
    | nil => cases hl
    | cons index indices =>
      rw [stridesOf_cons, sumPositions] at h
      cases hp : position index dim with
      | error x => rw [hp] at h; cases h
      | ok p =>
        cases hr : sumPositions indices shape (stridesOf shape) with
        | error x => rw [hp, hr] at h; cases h
        | ok r =>
          rw [hp, hr] at h
          cases h
          have hpd : (p + 1) * volume shape ≤ dim * volume shape :=
            Nat.mul_le_mul_right _ (position_lt hp)
          have hrv := ih (Nat.succ.inj hl) hr
          rw [volume_cons]
          rw [Nat.succ_mul] at hpd
          omega

/-- **An offset is the index of a cell.** -/
theorem Filled.offset_lt {t : Tensor} (h : t.Filled) {indices : List Int} {n : Nat}
    (ho : t.offset indices = .ok n) : n < t.cells.size := by
  unfold offset at ho
  split at ho
  · next hl =>
    rw [h.strides, ← stridesOf_eq_rowMajor] at ho
    rw [h.size]
    exact sumPositions_lt hl ho
  · cases ho

end SpanScript.Tensor
