import ClassFormat.Bytes.Reads
import ClassFormat.Proofs.Computation
import ClassFormat.Table.Store

/-!
# Checks that pass

Cells, rows and tables are made with checks. A cell passes if its value has the
shape of its column, a row if it has a cell, and a table if it has a column and
none of its tag is registered yet.
-/
namespace ClassFormat

theorem Reads.check_eq_ok {σ α : Type} {result : Except TableError α} {a : α} {s t : σ} :
    plain.check result s = .ok a t ↔ result = .ok a ∧ s = t := by
  rw [check, ofExcept_eq_ok, Except.mapError_eq_ok]

variable {τ : Type}

theorem Cell.make_eq_ok {column : Column τ} {raw size : Nat} {value : Value τ} {cell : Cell τ} :
    Cell.make column raw size value = .ok cell ↔
      value.shape = column.type.shape ∧ cell = ⟨column, raw, size, value⟩ := by
  unfold Cell.make
  split
  next suits => simp [suits, eq_comm]
  next different => simp [different]

variable [TableTag τ]

theorem Row.make_eq {tag : τ} {index : Nat} {cells : List (Cell τ)} (some : cells ≠ []) :
    Row.make tag index cells = .ok ⟨tag, index, cells⟩ :=
  if_neg (by simpa using some)

/-- Names and types of a layout describe its columns. -/
theorem Column.describe_layout {layout : Layout} (columns : layout ≠ []) (tag : τ) :
    Column.describe tag layout.types (layout.map Prod.fst) = .ok (layout.columns tag) := by
  have pairs : layout = (layout.map Prod.fst).zip layout.types := List.zip_of_prod rfl rfl
  unfold Column.describe
  rw [if_neg (by simp [Layout.types]), if_neg (by simpa [Layout.types] using columns), ← pairs]

theorem Store.makeTable_eq [DecidableEq τ] {store : Store τ} {tag : τ} {columns : List (Column τ)}
    (some : columns ≠ []) (free : ¬store.containsTable tag) :
    Store.makeTable tag columns store = .ok () (store.ensureTable tag columns) := by
  have made : Table.make tag columns = .ok (.empty tag columns) :=
    if_neg (by simpa using some)
  have added : Store.addTable tag columns store = .ok () (store.ensureTable tag columns) := by
    unfold Store.addTable Store.ensureTable
    rw [if_neg free, if_neg free]
  exact bind_eq_ok.mpr ⟨_, store, ofExcept_eq_ok.mpr ⟨made, rfl⟩, added⟩

end ClassFormat
