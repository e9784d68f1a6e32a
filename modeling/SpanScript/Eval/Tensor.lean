import SpanScript.Eval.Machine

/-!
# Tensors in programs

What tensor literals and indices mean.  A literal nests literals for its rows;
what stands in them that is no literal is a cell, be it a tensor or not, and all
rows must have the same shape.  A chain of index expressions addresses one cell,
however its indices are grouped.
-/

namespace SpanScript.Machine

mutual

/-- The shape and the cells of an item of a tensor literal; an item that is no
literal is one cell. -/
def cells (m : Machine) (chain : Chain) : Expr → Run (List Nat × List Value)
  | .tensor loc items => do
    if items.isEmpty then Run.fail .emptyLiteral loc
    else
      let (inner, values) ← (m.under Weight.item).rows chain none items
      pure (items.length :: inner, values)
  | e => do
    let v ← m.eval chain e
    pure ([], [v])

/-- The common shape and the cells of the items of a tensor literal, the items
before them having had the shape `inner`. -/
def rows (m : Machine) (chain : Chain) (inner : Option (List Nat)) :
    List Expr → Run (List Nat × List Value)
  | [] => pure (inner.getD [], [])
  | item :: rest => do
    let (shape, values) ← m.cells chain item
    if inner.any (· != shape) then Run.fail .raggedLiteral item.location
    else
      let (shape, others) ← m.rows chain (some shape) rest
      pure (shape, values ++ others)

end

/-- An item that is no tensor literal is one cell. -/
theorem cells_of_ne_tensor (m : Machine) (chain : Chain) {e : Expr}
    (h : ∀ loc items, e ≠ .tensor loc items) :
    m.cells chain e = (do let v ← m.eval chain e; pure ([], [v])) := by
  cases e with
  | tensor loc items => exact absurd rfl (h loc items)
  | _ => rfl

/-- The number of the cell that indices address, for a rule with a name. -/
def cellNumber (m : Machine) (chain : Chain) (loc : Location) (rule : String) (ref : TensorRef)
    (indices : List Expr) : Run Nat := do
  let ns ← (m.under Weight.index).integers chain loc rule indices
  let s ← get
  match (s.tensor ref).offset ns with
  | .ok n => pure n
  | .error p => Run.fail (.index p) loc

def readCell (ref : TensorRef) (offset : Nat) : Run Value := do
  let s ← get
  match (s.tensor ref).cells[offset]? with
  | some v => pure v
  | none => throw (.absent (.cell offset))

/-- The value of a chain of index expressions. -/
def readIndex (m : Machine) (chain : Chain) (loc : Location) (e : Expr) : Run Value := do
  let (base, indices) := e.indexChain
  match ← m.eval chain base with
  | .tns ref =>
    let offset ← m.cellNumber chain loc "INDEX" ref indices
    readCell ref offset
  | _ => Run.fail .indexOfNonTensor loc

/-- Assigns to a cell.  The cell is found first and then the value is
evaluated; it must be of the kind that the cell has by then. -/
def writeIndex (m : Machine) (chain : Chain) (loc : Location) (target value : Expr) :
    Run Unit := do
  match target.indexChain with
  | (.name place x, indices) =>
    match ← m.eval chain (.name place x) with
    | .tns ref =>
      let offset ← m.cellNumber chain loc "ASSIGN" ref indices
      let v ← m.eval chain value
      let old ← readCell ref offset
      if old.kind ≠ v.kind then Run.fail .cellMismatch loc
      else modify fun s => s.setCell ref offset v
    | _ => Run.fail .cellOfNonTensor loc
  | _ => Run.fail .cellOfExpression loc

end SpanScript.Machine
