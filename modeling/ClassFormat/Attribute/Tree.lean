import Mathlib.Algebra.Order.Ring.Nat
import ClassFormat.Attribute.Kind
import ClassFormat.Bytes.BigEndian
import ClassFormat.Table.Store

/-!
# Attribute trees

An attribute with all that is inside it, as one value. `Tree.encode` is its
written form, `Tree.Fits` says that it has the structure of its name and that
all counts and lengths can be written, and `Tree.Stored` says that a reference
leads to it in a row store. The bytes behind the last field of an attribute are
part of the tree, so every attribute that can be read is the written form of
one.
-/
namespace ClassFormat.Attribute

open BigEndian

/-- A field without records in it. -/
inductive Plain where
  | byte (n : UInt8)
  | short (n : UInt16)
  | word (n : UInt32)
  | bytes (bytes : List UInt8)
  | shorts (numbers : List UInt16)
  | raw (bytes : List UInt8)
deriving Repr, DecidableEq

namespace Plain

def type : Plain → ColumnType
  | byte _ => .byte
  | short _ => .uint16
  | word _ => .uint32
  | bytes _ => .byteArray
  | shorts _ => .shortArray
  | raw _ => .raw

def value : Plain → Value String
  | byte n => .byte n
  | short n => .short n
  | word n => .word n
  | bytes list | raw list => .bytes list
  | shorts numbers => .shorts numbers

def encode : Plain → List UInt8
  | byte n => [n]
  | short n => digits 2 n.toNat
  | word n => digits 4 n.toNat
  | bytes list => digits 4 list.length ++ list
  | shorts numbers => digits 2 numbers.length ++ numbers.flatMap fun n => digits 2 n.toNat
  | raw list => list

/-- Whether the count in front of the field can be written. -/
def Fits : Plain → Prop
  | bytes list => list.length < 2 ^ 32
  | shorts numbers => numbers.length < 2 ^ 16
  | byte _ | short _ | word _ | raw _ => True

end Plain

/-- The fields of an entry record. -/
def fieldsOf : Entry → List ColumnType
  | .exceptionHandler | .innerClass => [.uint16, .uint16, .uint16, .uint16]
  | .lineNumber | .methodParameter => [.uint16, .uint16]
  | .localVariable | .localVariableType => [.uint16, .uint16, .uint16, .uint16, .uint16]
  | .bootstrapMethod => [.uint16, .shortArray]

/-- The fields of the attributes of a name. The entry records of some of these
are attributes, too, under the names of their tables. -/
def structureOf (name : String) : List ColumnType :=
  match name with
  | "ConstantValue" | "Signature" | "SourceFile" | "NestHost" => [.uint16]
  | "Code" => [.uint16, .uint16, .byteArray, .entries .exceptionHandler, .attributes]
  | "Exceptions" | "NestMembers" | "PermittedSubclasses" => [.shortArray]
  | "InnerClasses" => [.entries .innerClass]
  | "EnclosingMethod" => [.uint16, .uint16]
  | "LineNumberTable" => [.entries .lineNumber]
  | "LocalVariableTable" => [.entries .localVariable]
  | "LocalVariableTypeTable" => [.entries .localVariableType]
  | "BootstrapMethods" => [.entries .bootstrapMethod]
  | "MethodParameters" => [.entries .methodParameter]
  | "ExceptionTableRef" | "InnerClassesRef" => [.uint16, .uint16, .uint16, .uint16]
  | "LineNumberTableRef" | "MethodParametersRef" => [.uint16, .uint16]
  | "LocalVariableTableRef" | "LocalVariableTypeTableRef" =>
    [.uint16, .uint16, .uint16, .uint16, .uint16]
  | "BootstrapMethodsRef" => [.uint16, .shortArray]
  | _ => [.raw]

theorem Entry.countWidth_eq (entry : Entry) :
    entry.countWidth = if entry = .methodParameter then 1 else 2 := by
  cases entry <;> rfl

theorem fieldsOf_eq (entry : Entry) : fieldsOf entry = entry.layout.types := by
  cases entry <;> rfl

theorem structureOf_eq (name : String) : structureOf name = typesOf name := by
  unfold typesOf layoutOf
  cases found : Kind.ofName? name with
  | none =>
      unfold structureOf
      split <;> first | rfl | exact absurd found (by decide)
  | some kind =>
      have same := List.find?_some (p := fun kind : Kind => kind.name == name) found
      obtain rfl := beq_iff_eq.mp same
      cases kind with
      | ofEntry entry => cases entry <;> rfl
      | _ => rfl

/-- An entry record. -/
abbrev Record := List Plain

namespace Record

def encode (record : Record) : List UInt8 :=
  record.flatMap Plain.encode

/-- Whether a record has fields of these types. -/
def Fits (record : Record) (types : List ColumnType) : Prop :=
  record.map Plain.type = types ∧ ∀ field ∈ record, field.Fits

/-- Whether a reference leads to the record, in the table of an entry. -/
def Stored (store : Store String) (entry : Entry) (record : Record)
    (reference : Reference String) : Prop :=
  reference.table = some entry.tableName ∧
    ∃ row, store.resolve reference = .ok row ∧
      row.cells.map Cell.value = record.map Plain.value

/-- Whether references lead to records, one to each. -/
def AllStored (store : Store String) (entry : Entry) :
    List Record → List (Reference String) → Prop
  | [], [] => True
  | record :: records, reference :: references =>
    record.Stored store entry reference ∧ AllStored store entry records references
  | _, _ => False

end Record

mutual

inductive Field where
  | plain (field : Plain)
  | entries (entry : Entry) (records : List Record)
  | attributes (trees : List Tree)

/-- An attribute, with the slot and the text of its name, and the bytes that
its fields leave unread. -/
inductive Tree where
  | node (nameIndex : UInt16) (name : String) (fields : List Field) (unread : List UInt8)

end

def Field.type : Field → ColumnType
  | plain field => field.type
  | entries entry _ => .entries entry
  | attributes _ => .attributes

namespace Tree

def name : Tree → String
  | node _ name _ _ => name

def nameIndex : Tree → UInt16
  | node index _ _ _ => index

def fields : Tree → List Field
  | node _ _ fields _ => fields

end Tree

mutual

def Field.encode : Field → List UInt8
  | .plain field => field.encode
  | .entries entry records =>
    digits (if entry = .methodParameter then 1 else 2) records.length ++
      records.flatMap Record.encode
  | .attributes trees => digits 2 trees.length ++ encodeTrees trees

def encodeFields : List Field → List UInt8
  | [] => []
  | field :: rest => field.encode ++ encodeFields rest

/-- The fields and what is behind them. -/
def Tree.payload : Tree → List UInt8
  | .node _ _ fields unread => encodeFields fields ++ unread

/-- Attributes one after the other, each behind its header of six bytes. -/
def encodeTrees : List Tree → List UInt8
  | [] => []
  | tree :: rest =>
    digits 2 tree.nameIndex.toNat ++ digits 4 tree.payload.length ++ tree.payload ++
      encodeTrees rest

end

/-- The header and the payload of an attribute. -/
def Tree.encode (tree : Tree) : List UInt8 :=
  digits 2 tree.nameIndex.toNat ++ digits 4 tree.payload.length ++ tree.payload

mutual

/-- Whether a field can be written, given which string the constant in a slot
is. -/
def Field.Fits (named : Nat → String → Prop) : Field → Prop
  | .plain field => field.Fits
  | .entries entry records =>
    records.length < 256 ^ (if entry = .methodParameter then 1 else 2) ∧
      ∀ record ∈ records, record.Fits (fieldsOf entry)
  | .attributes trees => trees.length < 2 ^ 16 ∧ TreesFit named trees

def FieldsFit (named : Nat → String → Prop) : List Field → List ColumnType → Prop
  | [], [] => True
  | field :: rest, type :: types =>
    field.type = type ∧ field.Fits named ∧ FieldsFit named rest types
  | _, _ => False

/-- Whether a tree has the structure of its name, which must be the string in
its slot. A column for all bytes leaves none unread. -/
def Tree.Fits (named : Nat → String → Prop) : Tree → Prop
  | .node index name fields unread =>
    named index.toNat name ∧ FieldsFit named fields (structureOf name) ∧
      (encodeFields fields ++ unread).length < 2 ^ 32 ∧ (.raw ∈ structureOf name → unread = [])

def TreesFit (named : Nat → String → Prop) : List Tree → Prop
  | [] => True
  | tree :: rest => tree.Fits named ∧ TreesFit named rest

end

mutual

/-- How many lists of attributes are nested in a field. -/
def Field.depth : Field → Nat
  | .plain _ | .entries _ _ => 0
  | .attributes trees => treesDepth trees + 1

def fieldsDepth : List Field → Nat
  | [] => 0
  | field :: rest => max field.depth (fieldsDepth rest)

def Tree.depth : Tree → Nat
  | .node _ _ fields _ => fieldsDepth fields

def treesDepth : List Tree → Nat
  | [] => 0
  | tree :: rest => max tree.depth (treesDepth rest)

end

mutual

def Field.Stored (store : Store String) : Field → Cell String → Prop
  | .plain field, cell => cell.value = field.value
  | .entries entry records, cell =>
    ∃ references, cell.value = .references references ∧
      Record.AllStored store entry records references
  | .attributes trees, cell =>
    ∃ references, cell.value = .references references ∧ TreesStored store trees references

def FieldsStored (store : Store String) : List Field → List (Cell String) → Prop
  | [], [] => True
  | field :: rest, cell :: cells => field.Stored store cell ∧ FieldsStored store rest cells
  | _, _ => False

/-- Whether a reference leads to a tree. -/
def Tree.Stored (store : Store String) : Tree → Reference String → Prop
  | .node _ name fields _, reference =>
    reference.table = some name ∧
      ∃ row, store.resolve reference = .ok row ∧ FieldsStored store fields row.cells

def TreesStored (store : Store String) : List Tree → List (Reference String) → Prop
  | [], [] => True
  | tree :: rest, reference :: references =>
    tree.Stored store reference ∧ TreesStored store rest references
  | _, _ => False

end

end ClassFormat.Attribute
