import Std.Data.TreeMap
import ClassFormat.Repetition
import ClassFormat.Table.Row

/-!
# Row stores

A row store holds tables in the order of their registration and gives every
row an index that is its own in the whole store, so a row is found by its index
alone. The operations keep the store when they fail, except that `addRow` uses
up an index in any case.
-/
namespace ClassFormat

/-- Rows with a common column set, in the order of their registration. -/
structure Table (τ : Type) where
  tag : τ
  columns : List (Column τ)
  rows : Array (Row τ)
deriving Repr, DecidableEq

variable {τ : Type}

/-- The columns of a table given by their types and names apart. -/
def Column.describe [TableTag τ] (table : τ) (types : List ColumnType) (names : List String) :
    Except TableError (List (Column τ)) :=
  if types.length ≠ names.length then
    .error (.columnShapeMismatch (TableTag.label table) types.length names.length)
  else if types.isEmpty then .error (.emptyColumnSet (TableTag.label table))
  else .ok (Layout.columns (names.zip types) table)

namespace Table

/-- A table without rows. -/
def empty (tag : τ) (columns : List (Column τ)) : Table τ := ⟨tag, columns, #[]⟩

/-- A table without rows, which must have a column. -/
def make [TableTag τ] (tag : τ) (columns : List (Column τ)) : Except TableError (Table τ) :=
  if columns.isEmpty then .error (.emptyColumnSet (TableTag.label tag))
  else .ok (.empty tag columns)

def push (table : Table τ) (row : Row τ) : Table τ :=
  { table with rows := table.rows.push row }

/-- The row of this index, looked for in this table only. -/
def row [TableTag τ] (table : Table τ) (index : Nat) : Except TableError (Row τ) :=
  match table.rows.find? fun row => row.index == index with
  | some row => .ok row
  | none => .error (.rowNotInTable index (TableTag.label table.tag))

end Table

structure Store (τ : Type) where
  tables : Array (Table τ) := #[]
  /-- Every row by its index. -/
  rows : Std.TreeMap Nat (Row τ) := ∅
  /-- The index that was tried last by `addRow`. -/
  minted : Nat := 0

namespace Store

variable [DecidableEq τ] [TableTag τ]

def position? (store : Store τ) (tag : τ) : Option Nat :=
  store.tables.findIdx? fun table => table.tag = tag

def table? (store : Store τ) (tag : τ) : Option (Table τ) :=
  store.tables.find? fun table => table.tag = tag

def containsTable (store : Store τ) (tag : τ) : Bool :=
  store.tables.any fun table => table.tag = tag

def table (store : Store τ) (tag : τ) : Except TableError (Table τ) :=
  match store.table? tag with
  | some table => .ok table
  | none => .error (.tableNotFound (TableTag.label tag))

def rowCount (store : Store τ) : Nat := store.rows.size

/-- The row of this index, in any table. -/
def row (store : Store τ) (index : Nat) : Except TableError (Row τ) :=
  match store.rows[index]? with
  | some row => .ok row
  | none => .error (.rowNotFound index)

/-- The indexes of all rows, in ascending order. -/
def indexes (store : Store τ) : List Nat := store.rows.keys

/-- The row of this index, which must be in the table of this tag. -/
def entry (store : Store τ) (tag : τ) (index : Nat) : Except TableError (Row τ) :=
  if store.containsTable tag then
    match store.rows[index]? with
    | some row =>
      if row.table = tag then .ok row
      else .error (.rowNotInTable index (TableTag.label tag))
    | none => .error (.rowNotInTable index (TableTag.label tag))
  else .error (.tableNotFound (TableTag.label tag))

def resolve (store : Store τ) (reference : Reference τ) : Except TableError (Row τ) :=
  match reference.table with
  | some tag => store.entry tag reference.index
  | none => store.row reference.index

def resolveAll (store : Store τ) (references : List (Reference τ)) :
    Except TableError (List (Row τ)) :=
  references.mapM store.resolve

/-- Registers an empty table at the end, unless its tag is taken. -/
def ensureTable (store : Store τ) (tag : τ) (columns : List (Column τ)) : Store τ :=
  if store.containsTable tag then store
  else { store with tables := store.tables.push (.empty tag columns) }

/-- Registers an empty table at the end. -/
def addTable (tag : τ) (columns : List (Column τ)) : EStateM TableError (Store τ) Unit :=
  fun store =>
    if store.containsTable tag then .error (.duplicateTable (TableTag.label tag)) store
    else .ok () { store with tables := store.tables.push (.empty tag columns) }

/-- Makes a table and registers it at the end. -/
def makeTable (tag : τ) (columns : List (Column τ)) : EStateM TableError (Store τ) Unit := do
  let table ← ofExcept (Table.make tag columns)
  addTable table.tag table.columns

/-- Registers a row under an index given by the caller. -/
def addRowAt (index : Nat) (row : Row τ) : EStateM TableError (Store τ) Unit := fun store =>
  if store.rows.contains index then .error (.duplicateRowIndex index) store
  else
    match store.position? row.table with
    | none => .error (.tableNotFound (TableTag.label row.table)) store
    | some position =>
      let columns := (store.tables[position]?.map fun table => table.columns.length).getD 0
      if row.cells.length = columns then
        let row := { row with index := index }
        .ok () { store with
          tables := store.tables.modify position fun table => table.push row
          rows := store.rows.insert index row }
      else .error (.cellCountMismatch (TableTag.label row.table) row.cells.length columns) store

/-- The next index, a number of four bytes. -/
def mint : EStateM TableError (Store τ) Nat := fun store =>
  let index := (store.minted + 1) % UInt32.size
  .ok index { store with minted := index }

/-- Registers a row under the next index. -/
def addRow (row : Row τ) : EStateM TableError (Store τ) Nat := do
  let index ← mint
  addRowAt index row
  return index

end Store

end ClassFormat
