import ClassFormat.Table.Error
import ClassFormat.Text.Hexadecimal

/-!
# Failures of decoding

`DecodingError` gathers what can go wrong between opening a file and naming the
class in it. Every constructor that concerns bytes says where they stand.
-/
namespace ClassFormat

/-- Why a record of fixed shape could not be read. -/
inductive ReadFault where
  | endOfData
  | badMagic
deriving Repr, DecidableEq

inductive DecodingError where
  | unreadableFile
  /-- A range that does not lie in the `size` bytes it was asked of. -/
  | outOfBounds (offset length size : Nat)
  /-- A record, by the offset of its first byte. -/
  | read (offset : Nat) (fault : ReadFault)
  | unsupportedConstantTag (code : UInt8) (slot : Nat)
  | unsupportedColumnType (column : String) (type : ColumnType)
  | nestingTooDeep (offset limit : Nat)
  | invalidModifiedUtf8 (offset : Nat)
  | invalidThisClass (slot : Nat) (cause : TableError)
  | invalidSuperClass (slot : Nat) (cause : TableError)
  | invalidInterface (slot : Nat) (cause : TableError)
  | table (cause : TableError)
deriving Repr, DecidableEq

open Text in
def DecodingError.message : DecodingError → String
  | .unreadableFile => "The file cannot be read"
  | .outOfBounds offset length size =>
    s!"Read of {length} bytes at offset {offsetText offset} is out of bounds (size: {size})"
  | .read offset .endOfData => s!"Not enough bytes for the record at offset {offsetText offset}"
  | .read offset .badMagic => s!"Bad magic number at offset {offsetText offset}"
  | .unsupportedConstantTag code slot =>
    s!"Unsupported constant tag {code} at constant pool entry {slot}"
  | .unsupportedColumnType column type =>
    s!"Column {column} has type {type.name} which cannot be decoded here"
  | .nestingTooDeep offset limit =>
    s!"Attributes nested more than {limit} levels deep at offset {offsetText offset}"
  | .invalidModifiedUtf8 offset => s!"Invalid modified UTF-8 string at offset {offsetText offset}"
  | .invalidThisClass slot cause =>
    s!"Invalid this_class name, at entry {slot}: {cause.message}"
  | .invalidSuperClass slot cause =>
    s!"Invalid super_class name, at entry {slot}: {cause.message}"
  | .invalidInterface slot cause =>
    s!"Invalid interface name, at entry {slot}: {cause.message}"
  | .table cause => s!"Table error: {cause.message}"

end ClassFormat
