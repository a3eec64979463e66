/-!
# Column types

The type of a column settles the shape of the values in it and how a decoder
reads them. Seven column types stand for lists of entries that have a table of
their own; they are told apart by `Entry`.
-/
namespace ClassFormat

/-- The entry records that some attributes list. -/
inductive Entry where
  | exceptionHandler | innerClass | lineNumber | localVariable | localVariableType
  | bootstrapMethod | methodParameter
deriving Repr, DecidableEq

namespace Entry

def all : List Entry :=
  [.exceptionHandler, .innerClass, .lineNumber, .localVariable, .localVariableType,
   .bootstrapMethod, .methodParameter]

/-- The table that holds the entries. -/
def tableName : Entry → String
  | .exceptionHandler => "ExceptionTableRef"
  | .innerClass => "InnerClassesRef"
  | .lineNumber => "LineNumberTableRef"
  | .localVariable => "LocalVariableTableRef"
  | .localVariableType => "LocalVariableTypeTableRef"
  | .bootstrapMethod => "BootstrapMethodsRef"
  | .methodParameter => "MethodParametersRef"

/-- Parameters are counted in one byte, all other entries in two. -/
def countWidth : Entry → Nat
  | .methodParameter => 1
  | _ => 2

end Entry

inductive ColumnType where
  | byte
  | uint16
  | uint32
  /-- A four-byte length, then that many bytes. -/
  | byteArray
  /-- A two-byte count, then that many two-byte numbers. -/
  | shortArray
  /-- A two-byte length, then that many bytes of modified UTF-8. -/
  | utf8String
  /-- All bytes that are left. -/
  | raw
  /-- A two-byte count, then that many attributes. -/
  | attributes
  /-- A count, then that many entry records. -/
  | entries (entry : Entry)
deriving Repr, DecidableEq

/-- What a value is made of, without its content. -/
inductive Shape where
  | byte | short | word | bytes | shorts | text | references
deriving Repr, DecidableEq

def Shape.name : Shape → String
  | .byte => "byte"
  | .short => "u2"
  | .word => "u4"
  | .bytes => "byte array"
  | .shorts => "u2 array"
  | .text => "string"
  | .references => "reference array"

namespace ColumnType

def name : ColumnType → String
  | .byte => "Byte"
  | .uint16 => "UInt16"
  | .uint32 => "UInt32"
  | .byteArray => "ByteArray"
  | .shortArray => "ShortArray"
  | .utf8String => "Utf8String"
  | .raw => "Raw"
  | .attributes => "AttributeRef"
  | .entries .innerClass => "InnerClassRef"
  | .entries entry => entry.tableName

def all : List ColumnType :=
  [.byte, .uint16, .uint32, .byteArray, .shortArray, .utf8String, .raw, .attributes] ++
    Entry.all.map .entries

def ofName? (s : String) : Option ColumnType :=
  all.find? fun type => type.name == s

/-- The shape of every value in a column of this type. -/
def shape : ColumnType → Shape
  | .byte => .byte
  | .uint16 => .short
  | .uint32 => .word
  | .byteArray | .raw => .bytes
  | .shortArray => .shorts
  | .utf8String => .text
  | .attributes | .entries _ => .references

/-- The number of bytes of a single number, nothing for the types whose length
varies. -/
def fixedSize? : ColumnType → Option Nat
  | .byte => some 1
  | .uint16 => some 2
  | .uint32 => some 4
  | _ => none

/-- The table of the entries that a column lists. -/
def entryTable? : ColumnType → Option String
  | .entries entry => some entry.tableName
  | _ => none

end ColumnType

/-- The names and types of the columns of a table, in order. -/
abbrev Layout := List (String × ColumnType)

def Layout.types (layout : Layout) : List ColumnType :=
  layout.map Prod.snd

structure Column (τ : Type) where
  table : τ
  index : Nat
  name : String
  type : ColumnType
deriving Repr, DecidableEq

/-- The columns of a layout, numbered from zero in sixteen bits. -/
def Layout.columns {τ : Type} (layout : Layout) (table : τ) : List (Column τ) :=
  layout.mapIdx fun i column => ⟨table, i % UInt16.size, column.1, column.2⟩

end ClassFormat
