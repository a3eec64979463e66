import ClassFormat.Table.Error
import ClassFormat.Table.Value

/-!
# Kinds of constants

Each constant starts with a byte that names its kind, and the kind fixes the
columns of the rest. Long and double constants take two slots of the pool, all
others one.
-/
namespace ClassFormat.Constant

inductive Tag where
  | utf8 | integer | float | long | double
  | classInfo | string | fieldref | methodref | interfaceMethodref | nameAndType
  | methodHandle | methodType | dynamic | invokeDynamic | moduleInfo | packageInfo
deriving Repr, DecidableEq

namespace Tag

def all : List Tag :=
  [.utf8, .integer, .float, .long, .double, .classInfo, .string, .fieldref, .methodref,
   .interfaceMethodref, .nameAndType, .methodHandle, .methodType, .dynamic, .invokeDynamic,
   .moduleInfo, .packageInfo]

def code : Tag → UInt8
  | .utf8 => 1
  | .integer => 3
  | .float => 4
  | .long => 5
  | .double => 6
  | .classInfo => 7
  | .string => 8
  | .fieldref => 9
  | .methodref => 10
  | .interfaceMethodref => 11
  | .nameAndType => 12
  | .methodHandle => 15
  | .methodType => 16
  | .dynamic => 17
  | .invokeDynamic => 18
  | .moduleInfo => 19
  | .packageInfo => 20

def ofCode? (code : UInt8) : Option Tag :=
  all.find? fun tag => tag.code == code

def name : Tag → String
  | .utf8 => "Utf8"
  | .integer => "Integer"
  | .float => "Float"
  | .long => "Long"
  | .double => "Double"
  | .classInfo => "Class"
  | .string => "String"
  | .fieldref => "Fieldref"
  | .methodref => "Methodref"
  | .interfaceMethodref => "InterfaceMethodref"
  | .nameAndType => "NameAndType"
  | .methodHandle => "MethodHandle"
  | .methodType => "MethodType"
  | .dynamic => "Dynamic"
  | .invokeDynamic => "InvokeDynamic"
  | .moduleInfo => "Module"
  | .packageInfo => "Package"

def ofName? (name : String) : Option Tag :=
  all.find? fun tag => tag.name == name

instance : TableTag Tag := ⟨name⟩

/-- Whether a constant of this kind takes two slots. -/
def isWide : Tag → Bool
  | .long | .double => true
  | _ => false

/-- The number of slots of a constant. -/
def width (tag : Tag) : Nat := if tag.isWide then 2 else 1

def layout : Tag → Layout
  | .utf8 => [("bytes", .utf8String)]
  | .integer | .float => [("bytes", .uint32)]
  | .long | .double => [("high_bytes", .uint32), ("low_bytes", .uint32)]
  | .classInfo | .moduleInfo | .packageInfo => [("name_index", .uint16)]
  | .string => [("string_index", .uint16)]
  | .fieldref | .methodref | .interfaceMethodref =>
    [("class_index", .uint16), ("name_and_type_index", .uint16)]
  | .nameAndType => [("name_index", .uint16), ("descriptor_index", .uint16)]
  | .methodHandle => [("reference_kind", .byte), ("reference_index", .uint16)]
  | .methodType => [("descriptor_index", .uint16)]
  | .dynamic | .invokeDynamic =>
    [("bootstrap_method_attr_index", .uint16), ("name_and_type_index", .uint16)]

def columns (tag : Tag) : List (Column Tag) := tag.layout.columns tag

end Tag

/-- What a method handle does with the member it refers to. -/
inductive HandleKind where
  | getField | getStatic | putField | putStatic
  | invokeVirtual | invokeStatic | invokeSpecial | newInvokeSpecial | invokeInterface
deriving Repr, DecidableEq

namespace HandleKind

def all : List HandleKind :=
  [.getField, .getStatic, .putField, .putStatic, .invokeVirtual, .invokeStatic, .invokeSpecial,
   .newInvokeSpecial, .invokeInterface]

def code : HandleKind → UInt8
  | .getField => 1
  | .getStatic => 2
  | .putField => 3
  | .putStatic => 4
  | .invokeVirtual => 5
  | .invokeStatic => 6
  | .invokeSpecial => 7
  | .newInvokeSpecial => 8
  | .invokeInterface => 9

def name : HandleKind → String
  | .getField => "GetField"
  | .getStatic => "GetStatic"
  | .putField => "PutField"
  | .putStatic => "PutStatic"
  | .invokeVirtual => "InvokeVirtual"
  | .invokeStatic => "InvokeStatic"
  | .invokeSpecial => "InvokeSpecial"
  | .newInvokeSpecial => "NewInvokeSpecial"
  | .invokeInterface => "InvokeInterface"

def ofCode (code : UInt8) : Except TableError HandleKind :=
  match all.find? fun kind => kind.code == code with
  | some kind => .ok kind
  | none => .error (.invalidReferenceKind code.toNat)

/-- The kind of constant that a handle refers to. Static and special
invocations may refer to the methods of classes and of interfaces. -/
def target? : HandleKind → Option Tag
  | .getField | .getStatic | .putField | .putStatic => some .fieldref
  | .invokeVirtual | .newInvokeSpecial => some .methodref
  | .invokeStatic | .invokeSpecial => none
  | .invokeInterface => some .interfaceMethodref

end HandleKind

end ClassFormat.Constant
