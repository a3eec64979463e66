import ClassFormat.ClassFile.Basic

/-!
# Reading class files

A class file is a header, the constant pool, the class itself with its
interfaces, the fields, the methods and the attributes of the class. What
follows them is left alone.
-/
namespace ClassFormat.ClassFile

open Attribute

def magic : Nat := 0xCAFEBABE

/-- The ten bytes in front of the constants. -/
structure Header where
  minorVersion : UInt16
  majorVersion : UInt16
  constantCount : UInt16
deriving Repr, DecidableEq

def Header.size : Nat := 10

/-- The class itself, behind the constants. -/
structure Info where
  flags : UInt16
  thisClass : UInt16
  superClass : UInt16
  interfaces : List UInt16
deriving Repr, DecidableEq

/-- The eight bytes in front of the attributes of a member. -/
structure MemberHeader where
  flags : UInt16
  nameIndex : UInt16
  descriptorIndex : UInt16
  attributeCount : UInt16
deriving Repr, DecidableEq

/-- The part of a class file behind the constants. -/
structure Body where
  info : Info
  fields : List Member
  methods : List Member
  attributes : List (Reference String)

/-- A class file or the reason why there is none, and the events on the way. -/
structure Reading (ε : Type := DecodingError) where
  result : Except ε ClassFile
  log : Array Event

namespace Decode

variable {ε W : Type} (S : Reads ε W)

def header : StateT W (Except ε) Header :=
  S.fields do
    let mark ← S.number 4
    if mark ≠ magic then throw (S.failure (.read 0 .badMagic))
    let minorVersion ← S.short
    let majorVersion ← S.short
    let constantCount ← S.short
    return ⟨minorVersion, majorVersion, constantCount⟩

/-- Numbers of two bytes, behind those already read, last one first. -/
def shortsOnto : Nat → List UInt16 → StateT W (Except ε) (List UInt16)
  | 0, numbers => pure numbers.reverse
  | count + 1, numbers => do
    let number ← S.short
    shortsOnto count (number :: numbers)

def info : StateT W (Except ε) Info :=
  S.fields do
    let flags ← S.short
    let thisClass ← S.short
    let superClass ← S.short
    let count ← S.short
    let interfaces ← shortsOnto S count.toNat []
    return ⟨flags, thisClass, superClass, interfaces⟩

def memberHeader : StateT W (Except ε) MemberHeader :=
  S.fields do
    let flags ← S.short
    let nameIndex ← S.short
    let descriptorIndex ← S.short
    let attributeCount ← S.short
    return ⟨flags, nameIndex, descriptorIndex, attributeCount⟩

variable (source : Source)

/-- The header, and the offset behind it. -/
def start : Except ε (Header × Nat) := do
  let (header, window) ← header S (← S.windowFrom source 0)
  return (header, ← S.position window)

/-- Reads a record at the offset and moves behind it. -/
def record {α : Type} (read : StateT W (Except ε) α) : EStateM ε Scan α := do
  let window ← ofExcept (S.windowFrom source (← ScanReader.currentOffset))
  let (a, window) ← ofExcept (read window)
  let length ← ofExcept (S.position window)
  ScanReader.advance S source length
  return a

/-- A two-byte count at the offset. -/
def count : EStateM ε Scan Nat := do
  let count ← ofExcept (S.shortAt source (← ScanReader.currentOffset))
  ScanReader.advance S source 2
  return count.toNat

variable (constants : Constant.Pool)

def attributes : Nat → EStateM ε Scan (List (Reference String)) :=
  (Steps.reading S).readAttributes source constants maxNesting

def member (place : FlagPlace) : EStateM ε Scan Member := do
  let start ← ScanReader.currentOffset
  let header ← record S source (memberHeader S)
  let attributes ← attributes S source constants header.attributeCount.toNat
  let stop ← ScanReader.currentOffset
  let length ← ofExcept (S.sub stop start)
  return { flags := .ofBits place header.flags, nameIndex := header.nameIndex
           descriptorIndex := header.descriptorIndex, attributes := attributes
           offset := start, length := length }

def body : EStateM ε Scan Body := do
  let info ← record S source (info S)
  let fields ← collect (← count S source) (member S source constants .field)
  let methods ← collect (← count S source) (member S source constants .method)
  let attributes ← attributes S source constants (← count S source)
  return ⟨info, fields, methods, attributes⟩

/-- What is noted when all parts have been read up to an offset. -/
def closing (body : Body) (pool : Pool) (offset : Nat) : Except ε (Array Event) := do
  let done : Event := .classRead body.fields.length body.methods.length body.attributes.length
    pool.store.rowCount
  if offset < source.size then return #[.trailingBytes (← S.sub source.size offset), done]
  else return #[done]

def read : Reading ε :=
  match start S source with
  | .error e => ⟨.error e, #[]⟩
  | .ok (header, offset) =>
    let begun := #[Event.classBegun header.majorVersion.toNat header.minorVersion.toNat]
    let pool := Constant.Pool.Decode.read S source header.constantCount.toNat offset
    match pool.result with
    | .error e => ⟨.error e, begun ++ pool.log⟩
    | .ok constants =>
      match body S source constants ⟨{}, pool.offset⟩ with
      | .error e s => ⟨.error e, begun ++ pool.log ++ s.pool.log⟩
      | .ok body s =>
        match closing S source body s.pool s.offset with
        | .error e => ⟨.error e, begun ++ pool.log ++ s.pool.log⟩
        | .ok last =>
          ⟨.ok
            { source := source
              minorVersion := header.minorVersion
              majorVersion := header.majorVersion
              constants := constants
              flags := .ofBits .classFile body.info.flags
              thisClass := body.info.thisClass
              superClass := body.info.superClass
              interfaces := body.info.interfaces
              fields := body.fields
              methods := body.methods
              attributePool := s.pool
              attributes := body.attributes },
            begun ++ pool.log ++ s.pool.log ++ last⟩

end Decode

def Header.read : WindowReader Header := Decode.header .plain

def Info.read : WindowReader Info := Decode.info .plain

def MemberHeader.read : WindowReader MemberHeader := Decode.memberHeader .plain

def readCount : Source → ScanReader Nat := Decode.count .plain

def readMember : Source → Constant.Pool → FlagPlace → ScanReader Member := Decode.member .plain

def readBody : Source → Constant.Pool → ScanReader Body := Decode.body .plain

def read : Source → Reading := Decode.read .plain

def ofSource (source : Source) : Except DecodingError ClassFile := (read source).result

/-- Reads the content of a file, if there is one. -/
def readContent : Option Source → Reading
  | none => ⟨.error .unreadableFile, #[]⟩
  | some source => read source

end ClassFormat.ClassFile
