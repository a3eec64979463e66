import ClassFormat.AccessFlags
import ClassFormat.Constant.Tag
import ClassFormat.Table.Value

/-!
# Properties of rows

What the accessors of constants and attributes answer. Floating point numbers
are given by their bits, which also tells the NaNs apart.
-/
namespace ClassFormat

inductive Property where
  | number (n : Nat)
  | int32 (n : Int32)
  | int64 (n : Int64)
  | float32 (bits : UInt32)
  | float64 (bits : UInt64)
  | text (s : String)
  | bytes (bytes : List UInt8)
  | flags (flags : AccessFlags)
  | handleKind (kind : Constant.HandleKind)
  | constant (reference : Reference Constant.Tag)
  /-- An optional constant that is not there. -/
  | absent
  | constants (references : List (Reference Constant.Tag))
  | records (references : List (Reference String))
  /-- Rows of entries, by their indexes. -/
  | rows (indexes : List Nat)
deriving Repr, DecidableEq

end ClassFormat
