import ClassFormat.Table.Error
import ClassFormat.Table.Value

/-!
# Cells and rows

A row is one decoded record: a cell for each column of its table, in order.
Each cell keeps its column, so a row can be read without its table.
-/
namespace ClassFormat

/-- A value in a column. `raw` is the number itself, or how many bytes, numbers
or references the value holds; `size` is the number of bytes it was read
from. -/
structure Cell (τ : Type) where
  column : Column τ
  raw : Nat
  size : Nat
  value : Value τ
deriving Repr, DecidableEq

structure Row (τ : Type) where
  table : τ
  index : Nat
  cells : List (Cell τ)
deriving Repr, DecidableEq

variable {τ : Type}

/-- A cell whose value has the shape of its column. -/
def Cell.make (column : Column τ) (raw size : Nat) (value : Value τ) :
    Except TableError (Cell τ) :=
  if value.shape = column.type.shape then .ok ⟨column, raw, size, value⟩
  else .error (.unexpectedValue column.name column.type.shape value.shape)

namespace Row

/-- A row of at least one cell. -/
def make [TableTag τ] (table : τ) (index : Nat) (cells : List (Cell τ)) :
    Except TableError (Row τ) :=
  if cells.isEmpty then .error (.cellCountMismatch (TableTag.label table) 0 1)
  else .ok ⟨table, index, cells⟩

def cell (row : Row τ) (column : Nat) : Except TableError (Cell τ) :=
  match row.cells[column]? with
  | some cell => .ok cell
  | none => .error (.columnIndexOutOfRange column row.cells.length)

/-- The first cell in a column of this name. -/
def cellNamed (row : Row τ) (name : String) : Except TableError (Cell τ) :=
  match row.cells.find? fun cell => cell.column.name == name with
  | some cell => .ok cell
  | none => .error (.columnNotFound name)

/-- The content of a cell, if it has the wanted shape. -/
def content {α : Type} (row : Row τ) (column : Nat) (shape : Shape) (pick : Value τ → Option α) :
    Except TableError α := do
  let cell ← row.cell column
  match pick cell.value with
  | some content => .ok content
  | none => .error (.unexpectedValue cell.column.name shape cell.value.shape)

def byte (row : Row τ) (column : Nat) : Except TableError UInt8 :=
  row.content column .byte Value.byte?

def short (row : Row τ) (column : Nat) : Except TableError UInt16 :=
  row.content column .short Value.short?

def word (row : Row τ) (column : Nat) : Except TableError UInt32 :=
  row.content column .word Value.word?

def bytes (row : Row τ) (column : Nat) : Except TableError (List UInt8) :=
  row.content column .bytes Value.bytes?

def shorts (row : Row τ) (column : Nat) : Except TableError (List UInt16) :=
  row.content column .shorts Value.shorts?

def text (row : Row τ) (column : Nat) : Except TableError String :=
  row.content column .text Value.text?

def references (row : Row τ) (column : Nat) : Except TableError (List (Reference τ)) :=
  row.content column .references Value.references?

/-- The reference to a row in its own table. -/
def reference (row : Row τ) : Reference τ := .typed row.table row.index

/-- The cells as `name=value`, separated by blanks. -/
def displayCells [TableTag τ] (row : Row τ) : String :=
  " ".intercalate (row.cells.map fun cell => s!"{cell.column.name}={cell.value.display}")

end Row

end ClassFormat
