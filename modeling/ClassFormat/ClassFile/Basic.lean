import ClassFormat.AccessFlags
import ClassFormat.Attribute.Decoder
import ClassFormat.Constant.Pool

/-!
# Class files

The parts of a class file, as `ClassFormat.ClassFile.Decode` reads them. Names
are looked up in the constant pool when they are asked for.
-/
namespace ClassFormat

/-- A field or a method. -/
structure Member where
  flags : AccessFlags
  nameIndex : UInt16
  descriptorIndex : UInt16
  attributes : List (Reference String)
  /-- The offset of the record, and its length with all attributes. -/
  offset : Nat
  length : Nat
deriving Repr, DecidableEq

structure ClassFile where
  source : Source
  minorVersion : UInt16
  majorVersion : UInt16
  constants : Constant.Pool
  flags : AccessFlags
  thisClass : UInt16
  /-- Zero for the class without a super class. -/
  superClass : UInt16
  interfaces : List UInt16
  fields : List Member
  methods : List Member
  /-- The attributes of the class, of its members and of their code. -/
  attributePool : Attribute.Pool
  /-- The attributes of the class itself. -/
  attributes : List (Reference String)

namespace Member

def name (member : Member) (constants : Constant.Pool) : Except TableError String :=
  constants.utf8 member.nameIndex.toNat

def descriptor (member : Member) (constants : Constant.Pool) : Except TableError String :=
  constants.utf8 member.descriptorIndex.toNat

/-- The bytes of the record. -/
def data (member : Member) (source : Source) : Except DecodingError (List UInt8) :=
  source.slice member.offset member.length

/-- The value of a constant field. -/
def constantValue? (member : Member) (pool : Attribute.Pool) :
    Except TableError (Option (Row String)) :=
  pool.find? member.attributes "ConstantValue"

/-- The body of a method that has one. -/
def code? (member : Member) (pool : Attribute.Pool) : Except TableError (Option (Row String)) :=
  pool.find? member.attributes "Code"

end Member

namespace ClassFile

def className (c : ClassFile) : Except DecodingError String :=
  (c.constants.className c.thisClass.toNat).mapError (.invalidThisClass c.thisClass.toNat)

def superClassName (c : ClassFile) : Except DecodingError (Option String) :=
  if c.superClass = 0 then .ok none
  else
    (some <$> c.constants.className c.superClass.toNat).mapError
      (.invalidSuperClass c.superClass.toNat)

def interfaceNames (c : ClassFile) : Except DecodingError (List String) :=
  c.interfaces.mapM fun slot =>
    (c.constants.className slot.toNat).mapError (.invalidInterface slot.toNat)

end ClassFile

end ClassFormat
