import ClassFormat.Table.Row

/-!
# Rows under other indexes

What becomes of references, and of the cells and rows that hold them, when all
rows get other indexes.
-/
namespace ClassFormat

variable {τ : Type}

def Reference.renumber (place : Nat → Nat) (reference : Reference τ) : Reference τ :=
  ⟨reference.table, place reference.index⟩

/-- Only references tell of indexes. -/
def Value.renumber (place : Nat → Nat) : Value τ → Value τ
  | .references list => .references (list.map (Reference.renumber place))
  | value => value

theorem Value.shape_renumber (place : Nat → Nat) (value : Value τ) :
    (value.renumber place).shape = value.shape := by
  cases value <;> rfl

def Cell.renumber (place : Nat → Nat) (cell : Cell τ) : Cell τ :=
  { cell with value := cell.value.renumber place }

def Row.renumber (place : Nat → Nat) (row : Row τ) : Row τ :=
  ⟨row.table, place row.index, row.cells.map (Cell.renumber place)⟩

@[simp] theorem Reference.renumber_id : (Reference.renumber id : Reference τ → Reference τ) = id :=
  rfl

@[simp] theorem Cell.renumber_id : (Cell.renumber id : Cell τ → Cell τ) = id := by
  funext cell
  obtain ⟨column, raw, size, value⟩ := cell
  cases value <;> simp [renumber, Value.renumber]

end ClassFormat
