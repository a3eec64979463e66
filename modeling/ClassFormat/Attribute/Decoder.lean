import ClassFormat.Attribute.Pool
import ClassFormat.Constant.Pool

/-!
# Decoding attributes

An attribute list stands either at an absolute offset (`readAttributes`) or
inside a payload (`nestedList`). The latter may hold further lists, and the
number of levels is an argument, from which the recursion takes one each time.
A failure keeps the rows and tables that were made on the way, and the place
that was reached.

The decoder is written down for any `Steps`, which say how bytes are read and rows
are kept, and what is done around a record, a list and an attribute. The readers
that run are those of `steps`, which do nothing else.
-/
namespace ClassFormat.Attribute

/-- How many lists may be nested in each other. -/
def maxNesting : Nat := 16

/-- The six bytes in front of every attribute. -/
structure Header where
  nameIndex : UInt16
  length : UInt32
deriving Repr, DecidableEq

def Header.size : Nat := 6

def Header.decode {ε W : Type} (S : Reads ε W) : StateT W (Except ε) Header :=
  S.fields do
    let nameIndex ← S.short
    let length ← S.word
    return ⟨nameIndex, length⟩

/-- A pool and the payload that is being read. -/
structure Payload (W : Type := Window) where
  pool : Pool
  window : W

abbrev PayloadReader := EStateM DecodingError Payload

namespace PayloadReader

variable {ε W α : Type}

/-- Reads on in the window. A failed read leaves it as it is. -/
def onWindow (read : StateT W (Except ε) α) : EStateM ε (Payload W) α := fun s =>
  match s with
  | ⟨pool, window⟩ =>
    match read window with
    | .ok (a, window) => .ok a ⟨pool, window⟩
    | .error e => .error e ⟨pool, window⟩

def onPool (act : EStateM ε Pool α) : EStateM ε (Payload W) α := fun s =>
  match s with
  | ⟨pool, window⟩ =>
    match act pool with
    | .ok a pool => .ok a ⟨pool, window⟩
    | .error e pool => .error e ⟨pool, window⟩

/-- A number that the window tells. -/
def ask (number : W → Except ε Nat) : EStateM ε (Payload W) Nat := fun s =>
  ofExcept (number s.window) s

end PayloadReader

/-- Reads a payload of its own, of which only the pool is kept. -/
def Pool.onPayload {ε W α : Type} (window : W) (read : EStateM ε (Payload W) α) :
    EStateM ε Pool (α × W) := fun pool =>
  match read ⟨pool, window⟩ with
  | .ok a s => .ok (a, s.window) s.pool
  | .error e s => .error e s.pool

/-- A pool and an offset in the source. -/
structure Scan where
  pool : Pool
  offset : Nat

abbrev ScanReader := EStateM DecodingError Scan

namespace ScanReader

variable {ε W α : Type}

def currentOffset : EStateM ε Scan Nat := fun s => .ok s.offset s

def advance (S : Reads ε W) (source : Source) (n : Nat) : EStateM ε Scan Unit :=
  S.advance source Scan.offset (fun s offset => { s with offset }) n

def onPool (act : EStateM ε Pool α) : EStateM ε Scan α := fun s =>
  match s with
  | ⟨pool, offset⟩ =>
    match act pool with
    | .ok a pool => .ok a ⟨pool, offset⟩
    | .error e pool => .error e ⟨pool, offset⟩

end ScanReader

/-- What the decoder asks, beyond reading bytes. Payloads are read in states `σ` and
sources in states `τ`, and pools are kept in states `π`. -/
structure Steps (ε W σ π τ : Type) extends Reads ε W where
  onWindow {α : Type} : StateT W (Except ε) α → EStateM ε σ α
  /-- A number that the window of the payload tells. -/
  ask : (W → Except ε Nat) → EStateM ε σ Nat
  /-- What is done to the pool alone. -/
  keep {α : Type} : EStateM DecodingError Pool α → EStateM ε π α
  onPool {α : Type} : EStateM ε π α → EStateM ε σ α
  /-- Around a record of a name. -/
  record {α : Type} : String → EStateM ε σ α → EStateM ε σ α
  /-- Around a list inside a payload. -/
  list {α : Type} : EStateM ε σ α → EStateM ε σ α
  /-- A list inside a payload with no level left for it. -/
  deepest {α : Type} : EStateM ε σ α
  /-- Reads the payload of an attribute of a name, of which only the pool is kept. -/
  payload : String → Header → W → EStateM ε σ (Reference String) →
    EStateM ε π (Reference String × W)
  currentOffset : EStateM ε τ Nat
  advance : Source → Nat → EStateM ε τ Unit
  scan {α : Type} : EStateM ε π α → EStateM ε τ α

namespace Steps

variable {ε W σ π τ : Type} (S : Steps ε W σ π τ)

/-- A cell of numbers or bytes; `none` for the column types that hold records
or modified UTF-8. The first number is the raw value. -/
def readPlain : ColumnType → Option (EStateM ε σ (Nat × Value String))
  | .byte => some do
    let n ← S.onWindow S.byte
    return (n.toNat, .byte n)
  | .uint16 => some do
    let n ← S.onWindow S.short
    return (n.toNat, .short n)
  | .uint32 => some do
    let n ← S.onWindow S.word
    return (n.toNat, .word n)
  | .byteArray => some do
    let length ← S.onWindow S.word
    let bytes ← S.onWindow (S.take length.toNat)
    return (length.toNat, .bytes bytes)
  | .shortArray => some do
    let count ← S.onWindow S.short
    let numbers ← collect count.toNat (S.onWindow S.short)
    return (count.toNat, .shorts numbers)
  | .raw => some do
    let bytes ← S.onWindow S.takeRest
    return (← ofExcept (S.fit bytes.length), .bytes bytes)
  | .utf8String | .attributes | .entries _ => none

/-- Measures what a cell is read from, and holds its value against its column. -/
def readSized (column : Column String) (read : EStateM ε σ (Nat × Value String)) :
    EStateM ε σ (Cell String) := do
  let start ← S.ask S.position
  let (raw, value) ← read
  let size ← ofExcept (S.sub (← S.ask S.position) start)
  S.check (Cell.make column raw size value)

def readPlainCell (column : Column String) : EStateM ε σ (Cell String) :=
  match S.readPlain column.type with
  | some read => S.readSized column read
  | none => throw (S.failure (.unsupportedColumnType column.name column.type))

/-- Reads a record of the table of a name, given how its cells are read. -/
def readRecord (readCell : Column String → EStateM ε σ (Cell String)) (name : String) :
    EStateM ε σ (Reference String) :=
  S.record name do
    S.onPool (S.keep (Pool.openTable name))
    let cells ← (columnsOf name).mapM readCell
    let row ← S.check (Row.make name 0 cells)
    S.onPool (S.keep (Pool.addRow row.table row.cells))

/-- Reads a count and that many entries. -/
def readEntries (entry : Entry) : EStateM ε σ (Nat × Value String) := do
  let count ← S.onWindow (S.number entry.countWidth)
  let references ← collect count (S.readRecord S.readPlainCell entry.tableName)
  return (count, .references references)

/-- Reads a cell, given how a nested list of attributes is read. -/
def readCell (readList : Nat → EStateM ε σ (List (Reference String)))
    (column : Column String) : EStateM ε σ (Cell String) :=
  match column.type with
  | .attributes => S.readSized column do
    let count ← S.onWindow S.short
    let references ← readList count.toNat
    return (count.toNat, .references references)
  | .entries entry => S.readSized column (S.readEntries entry)
  | _ => S.readPlainCell column

/-- Reads the payload of one attribute, and notes what it leaves unread. -/
def readPayload (constants : Constant.Pool)
    (readList : Nat → EStateM ε σ (List (Reference String)))
    (header : Header) (window : W) : EStateM ε π (Reference String) := do
  match constants.utf8 header.nameIndex.toNat with
  | .error e => throw (S.failure (.table e))
  | .ok name =>
    let (reference, window) ← S.payload name header window (S.readRecord (S.readCell readList) name)
    let left ← ofExcept (S.remaining window)
    if 0 < left then
      S.keep (Pool.note (.unreadBytes name (← ofExcept (S.offset window)) left))
    return reference

/-- Reads one attribute of a list inside a payload. -/
def readNested (constants : Constant.Pool)
    (readList : Nat → EStateM ε σ (List (Reference String))) : EStateM ε σ (Reference String) := do
  let header ← S.onWindow (Header.decode S.toReads)
  let window ← S.onWindow (S.split header.length.toNat)
  S.onPool (S.readPayload constants readList header window)

/-- Reads `count` attributes inside a payload, with so many levels of lists to
go. -/
def nestedList (constants : Constant.Pool) : Nat → Nat → EStateM ε σ (List (Reference String))
  | 0, _ => S.deepest
  | levels + 1, count => S.list (collect count (S.readNested constants (nestedList constants levels)))

/-- Reads the attribute at the offset, with so many levels of lists to go. The
offset moves behind the header when that was read, and behind the payload as soon
as its range is known. -/
def readAttribute (source : Source) (constants : Constant.Pool) (levels : Nat) :
    EStateM ε τ (Reference String) := do
  let window ← ofExcept (S.window source (← S.currentOffset) Header.size)
  let (header, _) ← ofExcept (Header.decode S.toReads window)
  S.advance source Header.size
  let payload ← ofExcept (S.window source (← S.currentOffset) header.length.toNat)
  S.advance source header.length.toNat
  S.scan (S.readPayload constants (S.nestedList constants levels) header payload)

/-- Reads `count` attributes at the offset. -/
def readAttributes (source : Source) (constants : Constant.Pool) (levels count : Nat) :
    EStateM ε τ (List (Reference String)) :=
  collect count (S.readAttribute source constants levels)

/-- Nothing is done but to read. -/
abbrev reading (S : Reads ε W) : Steps ε W (Payload W) Pool Scan where
  toReads := S
  onWindow := PayloadReader.onWindow
  ask := PayloadReader.ask
  keep := S.plainly
  onPool := PayloadReader.onPool
  record _ read := read
  list read := read
  deepest := do throw (S.failure (.nestingTooDeep (← PayloadReader.ask S.offset) maxNesting))
  payload _ _ := Pool.onPayload
  currentOffset := ScanReader.currentOffset
  advance := ScanReader.advance S
  scan := ScanReader.onPool

end Steps

abbrev steps : Steps DecodingError Window Payload Pool Scan := .reading .plain

def Header.read : WindowReader Header := decode .plain

def readPlain : ColumnType → Option (PayloadReader (Nat × Value String)) := steps.readPlain

def readSized : Column String → PayloadReader (Nat × Value String) → PayloadReader (Cell String) :=
  steps.readSized

def readPlainCell : Column String → PayloadReader (Cell String) := steps.readPlainCell

def readRecord : (Column String → PayloadReader (Cell String)) → String →
    PayloadReader (Reference String) :=
  steps.readRecord

def readEntries : Entry → PayloadReader (Nat × Value String) := steps.readEntries

def readCell : (Nat → PayloadReader (List (Reference String))) → Column String →
    PayloadReader (Cell String) :=
  steps.readCell

def readPayload (constants : Constant.Pool) : (Nat → PayloadReader (List (Reference String))) →
    Header → Window → EStateM DecodingError Pool (Reference String) :=
  steps.readPayload constants

def readNested (constants : Constant.Pool) : (Nat → PayloadReader (List (Reference String))) →
    PayloadReader (Reference String) :=
  steps.readNested constants

def nestedList (constants : Constant.Pool) : Nat → Nat → PayloadReader (List (Reference String)) :=
  steps.nestedList constants

/-- Reads `count` attributes at the cursor of a payload. -/
def readSubAttributes (constants : Constant.Pool) (count : Nat) :
    PayloadReader (List (Reference String)) :=
  nestedList constants maxNesting count

/-- Reads a record of the table of a name at the cursor of a payload. -/
def readSubRecord (constants : Constant.Pool) (name : String) :
    PayloadReader (Reference String) :=
  readRecord (readCell (nestedList constants maxNesting)) name

/-- Reads the attribute at the offset. -/
def readAttribute (source : Source) (constants : Constant.Pool) :
    ScanReader (Reference String) :=
  steps.readAttribute source constants maxNesting

/-- Reads `count` attributes at the offset. -/
def readAttributes (source : Source) (constants : Constant.Pool) :
    Nat → ScanReader (List (Reference String)) :=
  steps.readAttributes source constants maxNesting

end ClassFormat.Attribute
