import Mathlib.Algebra.Order.BigOperators.Group.List
import Mathlib.Algebra.Order.Ring.Nat
import ClassFormat.Table.Store
import ClassFormat.Text.ModifiedUtf8

/-!
# Measures of cells

Every cell has a raw number and a size next to its value. Both follow from the
value, from the rows that it refers to, and from the bytes that the attributes
among these have left unread.
-/
namespace ClassFormat

variable {τ : Type}

/-- The number of bytes that the cells of a row were read from. -/
def Row.size (row : Row τ) : Nat := (row.cells.map Cell.size).sum

/-- The raw number and the size of a cell by its value, given which bytes strings
are read off and how many bytes each attribute has left unread. In front of an
attribute there are six bytes. -/
inductive Cell.Measured (encoded : List UInt8 → Prop)
    (resolve : Reference τ → Except TableError (Row τ)) (unread : Row τ → Nat) : Cell τ → Prop
  | byte {column : Column τ} (n : UInt8) (type : column.type = .byte) :
    Measured encoded resolve unread ⟨column, n.toNat, 1, .byte n⟩
  | short {column : Column τ} (n : UInt16) (type : column.type = .uint16) :
    Measured encoded resolve unread ⟨column, n.toNat, 2, .short n⟩
  | word {column : Column τ} (n : UInt32) (type : column.type = .uint32) :
    Measured encoded resolve unread ⟨column, n.toNat, 4, .word n⟩
  | bytes {column : Column τ} (list : List UInt8) (type : column.type = .byteArray) :
    Measured encoded resolve unread ⟨column, list.length, 4 + list.length, .bytes list⟩
  | shorts {column : Column τ} (numbers : List UInt16) (type : column.type = .shortArray) :
    Measured encoded resolve unread ⟨column, numbers.length, 2 + 2 * numbers.length, .shorts numbers⟩
  | raw {column : Column τ} (list : List UInt8) (type : column.type = .raw) :
    Measured encoded resolve unread ⟨column, list.length, list.length, .bytes list⟩
  | text {column : Column τ} {list : List UInt8} {s : String} (type : column.type = .utf8String)
      (present : encoded list) (decoded : ModifiedUtf8.decode list = some s) :
    Measured encoded resolve unread ⟨column, list.length, 2 + list.length, .text s⟩
  | entries {column : Column τ} {entry : Entry} {references : List (Reference τ)}
      {rows : List (Row τ)} (type : column.type = .entries entry)
      (found : references.mapM resolve = .ok rows) :
    Measured encoded resolve unread ⟨column, references.length,
      (if entry = .methodParameter then 1 else 2) + (rows.map Row.size).sum, .references references⟩
  | attributes {column : Column τ} {references : List (Reference τ)} {rows : List (Row τ)}
      (type : column.type = .attributes) (found : references.mapM resolve = .ok rows) :
    Measured encoded resolve unread ⟨column, references.length,
      2 + (rows.map fun row => 6 + row.size + unread row).sum, .references references⟩

/-- Every row of a store has a cell in each column of its table, with the measures
that follow from the value. -/
structure Store.Measured [DecidableEq τ] [TableTag τ] (store : Store τ)
    (encoded : List UInt8 → Prop) (unread : Row τ → Nat) : Prop where
  columns : ∀ index row, store.row index = .ok row →
    ∃ table, store.table? row.table = some table ∧ row.cells.map Cell.column = table.columns
  cells : ∀ index row, store.row index = .ok row →
    ∀ cell ∈ row.cells, cell.Measured encoded store.resolve unread

/-- Cells that belong to columns one by one are cells in these columns. -/
theorem Cell.of_forall₂ {P : Cell τ → Prop} {columns : List (Column τ)} {cells : List (Cell τ)}
    (each : List.Forall₂ (fun column cell => cell.column = column ∧ P cell) columns cells) :
    cells.map Cell.column = columns ∧ ∀ cell ∈ cells, P cell := by
  induction each with
  | nil => simp
  | cons here _ ih =>
      obtain ⟨columns, all⟩ := ih
      exact ⟨by rw [List.map_cons, here.1, columns], List.forall_mem_cons.mpr ⟨here.2, all⟩⟩

namespace Cell.Measured

variable {encoded : List UInt8 → Prop} {resolve resolve' : Reference τ → Except TableError (Row τ)}
  {unread unread' : Row τ → Nat} {cell : Cell τ}

theorem mapM_resolve (kept : ∀ reference row, resolve reference = .ok row →
      resolve' reference = .ok row ∧ unread' row = unread row)
    {references : List (Reference τ)} {rows : List (Row τ)}
    (found : references.mapM resolve = .ok rows) :
    references.mapM resolve' = .ok rows ∧ ∀ row ∈ rows, unread' row = unread row := by
  induction references generalizing rows with
  | nil =>
      cases found
      exact ⟨rfl, by simp⟩
  | cons reference references ih =>
      simp only [List.mapM_cons] at found ⊢
      cases here : resolve reference with
      | error e =>
          rw [here] at found
          cases found
      | ok row =>
          cases rest : references.mapM resolve with
          | error e =>
              rw [here, rest] at found
              cases found
          | ok others =>
              rw [here, rest] at found
              cases found
              obtain ⟨row', same⟩ := kept reference row here
              obtain ⟨others', same'⟩ := ih rest
              rw [row', others']
              exact ⟨rfl, List.forall_mem_cons.mpr ⟨same, same'⟩⟩

/-- A cell keeps its measures as long as the rows below it keep theirs. -/
theorem mono (h : cell.Measured encoded resolve unread)
    (kept : ∀ reference row, resolve reference = .ok row →
      resolve' reference = .ok row ∧ unread' row = unread row) :
    cell.Measured encoded resolve' unread' := by
  cases h with
  | byte n type => exact .byte n type
  | short n type => exact .short n type
  | word n type => exact .word n type
  | bytes list type => exact .bytes list type
  | shorts numbers type => exact .shorts numbers type
  | raw list type => exact .raw list type
  | text type present decoded => exact .text type present decoded
  | entries type found => exact .entries type (mapM_resolve kept found).1
  | attributes type found =>
      obtain ⟨found', same⟩ := mapM_resolve kept found
      have sizes := List.map_congr_left fun row member => congrArg (6 + row.size + ·) (same row member)
      rw [← sizes]
      exact .attributes type found'

/-- The attributes in a cell account for its size, but for what they have left
unread. -/
theorem of_attributes (h : cell.Measured encoded resolve unread)
    (type : cell.column.type = .attributes) :
    ∃ references rows, cell.value = .references references ∧
      references.mapM resolve = .ok rows ∧ cell.raw = references.length ∧
      2 + (rows.map fun row => 6 + row.size).sum ≤ cell.size ∧
      (cell.size = 2 + (rows.map fun row => 6 + row.size).sum ↔ ∀ row ∈ rows, unread row = 0) := by
  cases h with
  | @attributes column references rows _ found =>
      have sizes : (rows.map fun row => 6 + row.size + unread row).sum =
          (rows.map fun row => 6 + row.size).sum + (rows.map unread).sum := List.sum_map_add
      have zero : (rows.map unread).sum = 0 ↔ ∀ row ∈ rows, unread row = 0 := by
        simp [List.sum_eq_zero_iff]
      refine ⟨references, rows, rfl, found, rfl, ?_, ?_⟩
      · dsimp only
        omega
      · rw [← zero]
        dsimp only
        omega
  | byte _ other | short _ other | word _ other | bytes _ other | shorts _ other | raw _ other
  | text other | entries other => cases other.symm.trans type

end Cell.Measured

end ClassFormat
