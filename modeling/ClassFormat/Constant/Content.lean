import Mathlib.Algebra.Order.Ring.Nat
import ClassFormat.Bytes.BigEndian
import ClassFormat.Constant.Tag
import ClassFormat.Table.Row
import ClassFormat.Text.ModifiedUtf8

/-!
# The written form of constants

`Content` is what a constant says, apart from the slot it stands in, and
`Content.encode` is its written form. `Row.encode` writes a row of the pool
back from its cells alone.
-/
namespace ClassFormat.Constant

open BigEndian

inductive Content where
  | utf8 (s : String)
  | integer (bits : UInt32)
  | float (bits : UInt32)
  | long (bits : UInt64)
  | double (bits : UInt64)
  | classInfo (name : UInt16)
  | string (text : UInt16)
  | fieldref (owner nameAndType : UInt16)
  | methodref (owner nameAndType : UInt16)
  | interfaceMethodref (owner nameAndType : UInt16)
  | nameAndType (name descriptor : UInt16)
  | methodHandle (kind : UInt8) (member : UInt16)
  | methodType (descriptor : UInt16)
  | dynamic (bootstrap nameAndType : UInt16)
  | invokeDynamic (bootstrap nameAndType : UInt16)
  | moduleInfo (name : UInt16)
  | packageInfo (name : UInt16)
deriving Repr, DecidableEq

namespace Content

def tag : Content → Tag
  | utf8 _ => .utf8
  | integer _ => .integer
  | float _ => .float
  | long _ => .long
  | double _ => .double
  | classInfo _ => .classInfo
  | string _ => .string
  | fieldref .. => .fieldref
  | methodref .. => .methodref
  | interfaceMethodref .. => .interfaceMethodref
  | nameAndType .. => .nameAndType
  | methodHandle .. => .methodHandle
  | methodType _ => .methodType
  | dynamic .. => .dynamic
  | invokeDynamic .. => .invokeDynamic
  | moduleInfo _ => .moduleInfo
  | packageInfo _ => .packageInfo

/-- The values of the cells of the constant's row. -/
def values : Content → List (Value Tag)
  | utf8 s => [.text s]
  | integer bits | float bits => [.word bits]
  | long bits | double bits => [.word (bits >>> 32).toUInt32, .word bits.toUInt32]
  | classInfo index | string index | methodType index | moduleInfo index | packageInfo index =>
    [.short index]
  | fieldref first second | methodref first second | interfaceMethodref first second
  | nameAndType first second | dynamic first second | invokeDynamic first second =>
    [.short first, .short second]
  | methodHandle kind member => [.byte kind, .short member]

/-- What follows the tag. -/
def payload : Content → List UInt8
  | utf8 s => digits 2 (ModifiedUtf8.encode s).length ++ ModifiedUtf8.encode s
  | integer bits | float bits => digits 4 bits.toNat
  | long bits | double bits => digits 8 bits.toNat
  | classInfo index | string index | methodType index | moduleInfo index | packageInfo index =>
    digits 2 index.toNat
  | fieldref first second | methodref first second | interfaceMethodref first second
  | nameAndType first second | dynamic first second | invokeDynamic first second =>
    digits 2 first.toNat ++ digits 2 second.toNat
  | methodHandle kind member => kind :: digits 2 member.toNat

/-- The byte that names the kind. -/
def code : Content → UInt8
  | utf8 _ => 1
  | integer _ => 3
  | float _ => 4
  | long _ => 5
  | double _ => 6
  | classInfo _ => 7
  | string _ => 8
  | fieldref .. => 9
  | methodref .. => 10
  | interfaceMethodref .. => 11
  | nameAndType .. => 12
  | methodHandle .. => 15
  | methodType _ => 16
  | dynamic .. => 17
  | invokeDynamic .. => 18
  | moduleInfo _ => 19
  | packageInfo _ => 20

theorem code_eq (content : Content) : content.code = content.tag.code := by
  cases content <;> rfl

def encode (content : Content) : List UInt8 :=
  content.code :: content.payload

/-- The number of slots that the constant takes. -/
def width : Content → Nat
  | long _ | double _ => 2
  | _ => 1

theorem width_eq (content : Content) : content.width = content.tag.width := by
  cases content <;> rfl

/-- Only a string can be too long to be written. -/
def Fits : Content → Prop
  | utf8 s => (ModifiedUtf8.encode s).length < 2 ^ 16
  | _ => True

end Content

def encodeAll (contents : List Content) : List UInt8 :=
  contents.flatMap Content.encode

/-- The number of slots that constants take. -/
def totalWidth (contents : List Content) : Nat :=
  (contents.map Content.width).sum

/-- The constants with their slots, which count from one. -/
def withSlots (slot : Nat) : List Content → List (Nat × Content)
  | [] => []
  | content :: rest => (slot, content) :: withSlots (slot + content.width) rest

/-- The written form of a cell of the pool, by its value. -/
def encodeCell (cell : Cell Tag) : List UInt8 :=
  match cell.value with
  | .byte n => [n]
  | .short n => digits 2 n.toNat
  | .word n => digits 4 n.toNat
  | .text s => digits 2 cell.raw ++ ModifiedUtf8.encode s
  | .bytes _ | .shorts _ | .references _ => []

def encodeRow (row : Row Tag) : List UInt8 :=
  row.table.code :: row.cells.flatMap encodeCell

end ClassFormat.Constant
