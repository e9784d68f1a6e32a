import Mathlib.Data.List.Forall2
import Mathlib.Logic.ExistsUnique
import SpanScript.Proofs.Value.Tensor

/-!
# The cells that indices address

An index is valid in a dimension if it counts a place of it, from one on, or from minus one
back from the end.  A list of indices addresses a cell of a filled tensor exactly if there is
one for each dimension and each is valid in its own.  The number of the cell is the places
read as digits, each dimension being the base of its place: so the lists that count from one
address every cell, and each cell once.

* `Valid`, `placeOf`, `position_eq_ok_iff`: one dimension.
* `number`, `Filled.offset_eq_ok_iff`: all dimensions.
* `exists_offset_error`: the lists that address nothing.
* `existsUnique_counted`: the lists that count from one.
-/

namespace SpanScript.Tensor

/-! ## One dimension -/

/-- An index counts a place of a dimension, from one on or from minus one back. -/
def Valid (index : Int) (dim : Nat) : Prop :=
  (1 ≤ index ∧ index ≤ dim) ∨ (-dim ≤ index ∧ index ≤ -1)

/-- An index counts a place of a dimension from one on. -/
def Counted (index : Int) (dim : Nat) : Prop := 1 ≤ index ∧ index ≤ dim

/-- The place that a valid index counts, from zero on. -/
def placeOf (index : Int) (dim : Nat) : Nat :=
  if index < 0 then (index + dim).toNat else (index - 1).toNat

variable {index : Int} {dim p : Nat}

theorem position_eq_ok_iff :
    position index dim = .ok p ↔ Valid index dim ∧ p = placeOf index dim := by
  unfold position Valid placeOf
  by_cases hzero : index = 0
  · rw [if_pos hzero]
    exact ⟨nofun, fun h => by omega⟩
  · rw [if_neg hzero]
    dsimp only
    by_cases hneg : index < 0
    · rw [if_pos hneg, if_pos hneg]
      by_cases hin : 1 ≤ index + dim + 1 ∧ index + dim + 1 ≤ dim
      · rw [if_pos hin, Except.ok.injEq]
        omega
      · rw [if_neg hin]
        exact ⟨nofun, fun h => by omega⟩
    · rw [if_neg hneg, if_neg hneg]
      by_cases hin : 1 ≤ index ∧ index ≤ dim
      · rw [if_pos hin, Except.ok.injEq]
        omega
      · rw [if_neg hin]
        exact ⟨nofun, fun h => by omega⟩

theorem Valid.position (h : Valid index dim) : position index dim = .ok (placeOf index dim) :=
  position_eq_ok_iff.mpr ⟨h, rfl⟩

theorem Valid.placeOf_lt (h : Valid index dim) : placeOf index dim < dim := position_lt h.position

theorem Counted.valid (h : Counted index dim) : Valid index dim := .inl h

theorem Counted.placeOf (h : Counted index dim) : (placeOf index dim : Int) = index - 1 := by
  unfold Counted at h
  rw [Tensor.placeOf, if_neg (by omega)]
  omega

theorem counted_succ (h : p < dim) : Counted (p + 1) dim ∧ placeOf (p + 1) dim = p := by
  unfold Counted placeOf
  rw [if_neg (by omega)]
  omega

/-! ## All dimensions -/

/-- The number of the cell at a place in each dimension: the places read as digits. -/
def number : List Int → List Nat → Nat
  | index :: indices, dim :: shape => placeOf index dim * volume shape + number indices shape
  | _, _ => 0

variable {indices : List Int} {shape : List Nat} {n : Nat} {t : Tensor}

theorem sumPositions_of_valid (h : List.Forall₂ Valid indices shape) :
    sumPositions indices shape (stridesOf shape) = .ok (number indices shape) := by
  induction h with
  | nil => rfl
  | cons hindex _ ih => rw [stridesOf_cons, sumPositions, hindex.position, ih]; rfl

theorem valid_of_sumPositions (hl : indices.length = shape.length)
    (h : sumPositions indices shape (stridesOf shape) = .ok n) :
    List.Forall₂ Valid indices shape := by
  induction shape generalizing indices n with
  | nil =>
    cases List.length_eq_zero_iff.mp hl
    exact .nil
  | cons dim shape ih =>
    cases indices with
    | nil => cases hl
    | cons index indices =>
      rw [stridesOf_cons, sumPositions] at h
      cases hp : position index dim with
      | error x => rw [hp] at h; cases h
      | ok p =>
        cases hr : sumPositions indices shape (stridesOf shape) with
        | error x => rw [hp, hr] at h; cases h
        | ok r => exact .cons (position_eq_ok_iff.mp hp).1 (ih (Nat.succ.inj hl) hr)

/-- **Indices address a cell** of a filled tensor exactly if there is a valid one for each
dimension. -/
theorem Filled.offset_eq_ok_iff (h : t.Filled) :
    t.offset indices = .ok n ↔ List.Forall₂ Valid indices t.shape ∧ n = number indices t.shape := by
  unfold offset
  rw [h.strides, ← stridesOf_eq_rowMajor]
  constructor
  · intro ho
    by_cases hl : indices.length = t.shape.length
    · rw [if_pos hl] at ho
      have hvalid := valid_of_sumPositions hl ho
      rw [sumPositions_of_valid hvalid] at ho
      exact ⟨hvalid, (Except.ok.inj ho).symm⟩
    · rw [if_neg hl] at ho
      cases ho
  · rintro ⟨hvalid, rfl⟩
    rw [if_pos hvalid.length_eq, sumPositions_of_valid hvalid]

theorem Filled.offset_of_valid (h : t.Filled) (hv : List.Forall₂ Valid indices t.shape) :
    t.offset indices = .ok (number indices t.shape) := h.offset_eq_ok_iff.mpr ⟨hv, rfl⟩

/-- All other lists of indices are wrong. -/
theorem Filled.exists_offset_error (h : t.Filled) (hv : ¬ List.Forall₂ Valid indices t.shape) :
    ∃ p, t.offset indices = .error p := by
  cases ho : t.offset indices with
  | error p => exact ⟨p, rfl⟩
  | ok n => exact absurd (h.offset_eq_ok_iff.mp ho).1 hv

/-! ## Counting from one -/

theorem forall₂_valid (h : List.Forall₂ Counted indices shape) : List.Forall₂ Valid indices shape :=
  h.imp fun _ _ => Counted.valid

theorem number_lt (h : List.Forall₂ Valid indices shape) : number indices shape < volume shape :=
  sumPositions_lt h.length_eq (sumPositions_of_valid h)

theorem number_cons_div {dims : List Nat} {index : Int} {indices : List Int} {dim : Nat}
    (h : List.Forall₂ Valid indices dims) :
    number (index :: indices) (dim :: dims) / volume dims = placeOf index dim ∧
      number (index :: indices) (dim :: dims) % volume dims = number indices dims := by
  have hlt := number_lt h
  have hpos : 0 < volume dims := Nat.zero_lt_of_lt hlt
  rw [number, Nat.add_comm]
  refine ⟨?_, ?_⟩
  · rw [Nat.add_mul_div_right _ _ hpos, Nat.div_eq_of_lt hlt, Nat.zero_add]
  · rw [Nat.add_mul_mod_self_right, Nat.mod_eq_of_lt hlt]

/-- **Each cell has one address that counts from one.** -/
theorem existsUnique_counted : ∀ {shape : List Nat} {n : Nat}, n < volume shape →
    ∃! indices, List.Forall₂ Counted indices shape ∧ number indices shape = n := by
  intro shape
  induction shape with
  | nil =>
    intro n hn
    obtain rfl : n = 0 := Nat.lt_one_iff.mp hn
    refine ⟨[], ⟨.nil, rfl⟩, ?_⟩
    rintro indices ⟨h, -⟩
    cases h
    rfl
  | cons dim shape ih =>
    intro n hn
    rw [volume_cons] at hn
    have hpos : 0 < volume shape := Nat.pos_of_mul_pos_left (Nat.zero_lt_of_lt hn)
    obtain ⟨indices, ⟨hindices, hnumber⟩, hunique⟩ := ih (Nat.mod_lt n hpos)
    obtain ⟨hcounted, hplace⟩ := counted_succ (Nat.div_lt_of_lt_mul (Nat.mul_comm dim _ ▸ hn))
    refine ⟨((n / volume shape : Nat) + 1 : Int) :: indices, ⟨.cons hcounted hindices, ?_⟩, ?_⟩
    · rw [number, hplace, hnumber, Nat.div_add_mod']
    · rintro other ⟨hother, rfl⟩
      -- the first index is the quotient, and the others have the rest for their number
      cases hother with
      | cons hindex hrest =>
        obtain ⟨hdiv, hmod⟩ := number_cons_div (forall₂_valid hrest)
        rw [hdiv, hindex.placeOf, hunique _ ⟨hrest, hmod.symm⟩]
        congr 1
        omega

end SpanScript.Tensor
