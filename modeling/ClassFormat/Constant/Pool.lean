import ClassFormat.Bytes.Reads
import ClassFormat.Constant.Tag
import ClassFormat.Event
import ClassFormat.Table.Store
import ClassFormat.Text.ModifiedUtf8

/-!
# The constant pool

The pool is read entry by entry from an absolute offset. Rows are registered
under their slot number, so an index of the class file is an index of the
store. The offset moves with every tag and every cell that was read, and stays
there when the next one fails.
-/
namespace ClassFormat.Constant

structure Pool where
  store : Store Tag
  /-- The offset of the first entry. -/
  offset : Nat
  /-- The number of bytes of all entries. -/
  dataLength : Nat
  /-- One more than the number of slots. -/
  count : Nat

namespace Pool

/-- What reading the entries has reached. -/
structure Progress where
  offset : Nat
  store : Store Tag
  log : Array Event

abbrev Reader := EStateM DecodingError Progress

namespace Reader

def currentOffset : Reader Nat := fun s => .ok s.offset s

def note (event : Event) : Reader Unit :=
  modify fun s => { s with log := s.log.push event }

/-- The table of a kind. -/
def table (tag : Tag) : Reader (Table Tag) := fun s =>
  ofExcept ((s.store.table tag).mapError .table) s

def onStore {α : Type} (act : EStateM TableError (Store Tag) α) : Reader α := fun s =>
  match s with
  | ⟨offset, store, log⟩ =>
    match act store with
    | .ok a store => .ok a ⟨offset, store, log⟩
    | .error e store => .error (.table e) ⟨offset, store, log⟩

end Reader

/-- Registers a table for every kind of constant. -/
def openTables : EStateM TableError (Store Tag) Unit :=
  Tag.all.forM fun tag => do
    let layout := tag.layout
    let columns ← ofExcept (Column.describe tag layout.types (layout.map Prod.fst))
    Store.makeTable tag columns

/-- The outcome of reading a pool: where it ended, and the events on the way. -/
structure Reading (ε : Type := DecodingError) where
  result : Except ε Pool
  offset : Nat
  log : Array Event

namespace Decode

variable {ε W : Type} (S : Reads ε W) (source : Source)

/-- The raw number, the value and the size of the cell at an offset, with no regard
to what follows it. -/
def valueAt (column : Column Tag) (offset : Nat) : Except ε (Nat × Value Tag × Nat) :=
  match column.type with
  | .byte => do
    let n ← S.byteAt source offset
    return (n.toNat, .byte n, 1)
  | .uint16 => do
    let n ← S.shortAt source offset
    return (n.toNat, .short n, 2)
  | .uint32 => do
    let n ← S.wordAt source offset
    return (n.toNat, .word n, 4)
  | .utf8String => do
    let length := (← S.shortAt source offset).toNat
    let start ← S.behind offset 2
    let bytes ← S.slice source start length
    match ModifiedUtf8.decode bytes with
    | some text => return (length, .text text, ← S.add 2 length)
    | none => throw (S.failure (.invalidModifiedUtf8 start))
  | type => throw (S.failure (.unsupportedColumnType column.name type))

def advance (n : Nat) : EStateM ε Progress Unit :=
  S.advance source Progress.offset (fun s offset => { s with offset }) n

def cell (column : Column Tag) : EStateM ε Progress (Cell Tag) := do
  let (raw, value, size) ← ofExcept (valueAt S source column (← S.plainly Reader.currentOffset))
  advance S source size
  S.check (Cell.make column raw size value)

/-- Reads the cells of a constant, and registers its row. -/
def row (slot : Nat) (tag : Tag) : EStateM ε Progress Unit := do
  let table ← S.plainly (Reader.table tag)
  let cells ← table.columns.mapM (cell S source)
  let row ← S.check (Row.make tag slot cells)
  S.plainly (Reader.note (.constantRead row))
  S.plainly (Reader.onStore (Store.addRowAt slot row))

/-- Reads one entry into a slot, and tells its kind. -/
def entry (slot : Nat) : EStateM ε Progress Tag := do
  let code ← ofExcept (S.byteAt source (← S.plainly Reader.currentOffset))
  match Tag.ofCode? code with
  | none => throw (S.failure (.unsupportedConstantTag code slot))
  | some tag =>
    advance S source 1
    row S source slot tag
    return tag

/-- Reads entries from a slot on, until the slots that are left are used up. A wide
constant in the last slot uses it up, too. -/
def entries : Nat → Nat → EStateM ε Progress Unit
  | _, 0 => pure ()
  | slot, 1 => do
    let tag ← entry S source slot
    let _ ← ofExcept (S.add slot tag.width)
  | slot, left + 2 => do
    let tag ← entry S source slot
    let next ← ofExcept (S.add slot tag.width)
    if tag.isWide then entries next left else entries next (left + 1)

/-- Reads the `count - 1` slots at the offset into a store without tables, and tells
the number of bytes. -/
def pool (count : Nat) : EStateM ε Progress Nat := do
  S.plainly (Reader.onStore openTables)
  let start ← S.plainly Reader.currentOffset
  S.plainly (Reader.note (.constantsBegun start (count - 1)))
  entries S source 1 (count - 1)
  ofExcept (S.sub (← S.plainly Reader.currentOffset) start)

def read (count offset : Nat) : Reading ε :=
  match pool S source count ⟨offset, {}, #[]⟩ with
  | .ok length s => ⟨.ok ⟨s.store, offset, length, count⟩, s.offset, s.log⟩
  | .error e s => ⟨.error e, s.offset, s.log⟩

end Decode

def valueAt : Source → Column Tag → Nat → Except DecodingError (Nat × Value Tag × Nat) :=
  Decode.valueAt .plain

def readCell (source : Source) : Column Tag → Reader (Cell Tag) := Decode.cell .plain source

def readRow (source : Source) : Nat → Tag → Reader Unit := Decode.row .plain source

def readEntry (source : Source) : Nat → Reader Tag := Decode.entry .plain source

def readEntries (source : Source) : Nat → Nat → Reader Unit := Decode.entries .plain source

def readPool (source : Source) : Nat → Reader Nat := Decode.pool .plain source

/-- Reads the `count - 1` slots that start at `offset`. -/
def read : Source → Nat → Nat → Reading := Decode.read .plain

/-- The bytes of all entries. -/
def data (pool : Pool) (source : Source) : Except DecodingError (List UInt8) :=
  source.slice pool.offset pool.dataLength

/-- The constant in a slot, of any kind. -/
def get (pool : Pool) (slot : Nat) : Except TableError (Row Tag) :=
  pool.store.row slot

/-- The constant in a slot, which must be of the given kind. -/
def entry (pool : Pool) (tag : Tag) (slot : Nat) : Except TableError (Row Tag) :=
  pool.store.entry tag slot

def resolve (pool : Pool) (reference : Reference Tag) : Except TableError (Row Tag) :=
  pool.store.resolve reference

/-- The string of the UTF-8 constant in a slot. -/
def utf8 (pool : Pool) (slot : Nat) : Except TableError String := do
  (← pool.entry .utf8 slot).text 0

/-- The name that the class constant in a slot points to. -/
def className (pool : Pool) (slot : Nat) : Except TableError String := do
  pool.utf8 (← (← pool.entry .classInfo slot).short 0).toNat

end Pool

end ClassFormat.Constant
