import ClassFormat.Constant.Pool
import ClassFormat.Property

/-!
# Accessors of constants

Each kind of constant has accessors by name. Most read the cells of the row
alone; a few look a string up in the pool. An accessor can be tried on a row of
any kind, and fails where the cell it needs is missing or of another shape.
-/
namespace ClassFormat.Constant

inductive Accessor where
  | short (column : Nat)
  | word (column : Nat)
  | int32 (column : Nat)
  | float32 (column : Nat)
  /-- The high and low words of the first two columns. -/
  | int64
  | float64
  | text (column : Nat)
  /-- A reference to a constant of the given kind. -/
  | reference (column : Nat) (target : Tag)
  /-- The string that a column points to. -/
  | textAt (column : Nat)
  | handleKind
  /-- The member of a method handle, in the table that the handle's kind asks
  for. -/
  | handleTarget
deriving Repr, DecidableEq

def Tag.accessors : Tag → List (String × Accessor)
  | .utf8 => [("value", .text 0)]
  | .integer => [("bytes", .word 0), ("value", .int32 0)]
  | .float => [("bytes", .word 0), ("value", .float32 0)]
  | .long => [("high_bytes", .word 0), ("low_bytes", .word 1), ("value", .int64)]
  | .double => [("high_bytes", .word 0), ("low_bytes", .word 1), ("value", .float64)]
  | .classInfo => [("name_index", .reference 0 .utf8), ("name", .textAt 0)]
  | .string => [("string_index", .reference 0 .utf8), ("value", .textAt 0)]
  | .fieldref | .methodref | .interfaceMethodref =>
    [("class_index", .reference 0 .classInfo), ("name_and_type_index", .reference 1 .nameAndType)]
  | .nameAndType =>
    [("name_index", .reference 0 .utf8), ("descriptor_index", .reference 1 .utf8),
     ("name", .textAt 0), ("descriptor", .textAt 1)]
  | .methodHandle => [("reference_kind", .handleKind), ("reference_index", .handleTarget)]
  | .methodType => [("descriptor_index", .reference 0 .utf8)]
  | .dynamic | .invokeDynamic =>
    [("bootstrap_method_attr_index", .short 0), ("name_and_type_index", .reference 1 .nameAndType)]
  | .moduleInfo | .packageInfo => [("name_index", .reference 0 .utf8)]

/-- Two words as one number. -/
def joinWords (high low : UInt32) : UInt64 :=
  high.toUInt64 <<< 32 ||| low.toUInt64

def longBits (row : Row Tag) : Except TableError UInt64 := do
  let high ← row.word 0
  let low ← row.word 1
  return joinWords high low

def handleKind (row : Row Tag) : Except TableError HandleKind := do
  HandleKind.ofCode (← row.byte 0)

def handleTarget (row : Row Tag) : Except TableError (Reference Tag) := do
  let slot := (← row.short 1).toNat
  let kind ← handleKind row
  return ⟨kind.target?, slot⟩

def Accessor.read (pool : Pool) (row : Row Tag) : Accessor → Except TableError Property
  | .short column => return .number (← row.short column).toNat
  | .word column => return .number (← row.word column).toNat
  | .int32 column => return .int32 (← row.word column).toInt32
  | .float32 column => return .float32 (← row.word column)
  | .int64 => return .int64 (← longBits row).toInt64
  | .float64 => return .float64 (← longBits row)
  | .text column => return .text (← row.text column)
  | .reference column target => return .constant (.typed target (← row.short column).toNat)
  | .textAt column => return .text (← pool.utf8 (← row.short column).toNat)
  | .handleKind => return .handleKind (← Constant.handleKind row)
  | .handleTarget => return .constant (← Constant.handleTarget row)

/-- What accessors answer on a row, by name. -/
def Pool.view (pool : Pool) (accessors : List (String × Accessor)) (row : Row Tag) :
    List (String × Except TableError Property) :=
  accessors.map fun accessor => (accessor.1, accessor.2.read pool row)

end ClassFormat.Constant
