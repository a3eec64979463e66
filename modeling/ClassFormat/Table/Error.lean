import ClassFormat.Table.Column

/-!
# Failures of table operations

One constructor per cause, with the wording in `TableError.message`.
-/
namespace ClassFormat

inductive TableError where
  | duplicateTable (table : String)
  | tableNotFound (table : String)
  | duplicateRowIndex (index : Nat)
  | rowNotFound (index : Nat)
  | rowNotInTable (index : Nat) (table : String)
  | columnIndexOutOfRange (index columns : Nat)
  | columnNotFound (name : String)
  | columnShapeMismatch (table : String) (types names : Nat)
  | emptyColumnSet (table : String)
  | cellCountMismatch (table : String) (cells columns : Nat)
  | unexpectedValue (column : String) (expected found : Shape)
  | invalidReferenceKind (kind : Nat)
deriving Repr, DecidableEq

def TableError.message : TableError → String
  | .duplicateTable table => s!"Table {table} is already registered"
  | .tableNotFound table => s!"Table {table} not found"
  | .duplicateRowIndex index => s!"Row index {index} is already registered"
  | .rowNotFound index => s!"Row with index {index} not found"
  | .rowNotInTable index table => s!"Row with index {index} not found in table {table}"
  | .columnIndexOutOfRange index columns =>
    s!"Column index {index} is out of range, the row has {columns} columns"
  | .columnNotFound name => s!"Column with name '{name}' not found"
  | .columnShapeMismatch table types names =>
    s!"Length of column types ({types}) and names ({names}) must be equal, table: {table}"
  | .emptyColumnSet table => s!"Table {table} must declare at least one column"
  | .cellCountMismatch table cells columns =>
    s!"Row of table {table} has {cells} cells but the table declares {columns} columns"
  | .unexpectedValue column expected found =>
    s!"Column {column} holds a {found.name} value, expected {expected.name}"
  | .invalidReferenceKind kind => s!"Unsupported method handle reference kind: {kind}"

end ClassFormat
