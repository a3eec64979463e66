import ClassFormat.Attribute.Kind
import ClassFormat.Bytes.Reads
import ClassFormat.Event
import ClassFormat.Table.Store

/-!
# The attribute pool

All attributes of a class file become rows of one pool, in a table for each
name, which is made when an attribute of that name is first met. The rows that
an attribute consists of (its entries and the attributes inside it) are
registered before its own row.
-/
namespace ClassFormat.Attribute

structure Pool where
  store : Store String := {}
  /-- What was noted while reading, oldest first. -/
  log : Array Event := #[]

namespace Pool

variable {α : Type}

def note (event : Event) : EStateM DecodingError Pool Unit :=
  modify fun pool => { pool with log := pool.log.push event }

def onStore (act : EStateM TableError (Store String) α) : EStateM DecodingError Pool α :=
  fun pool =>
    match pool with
    | ⟨store, log⟩ =>
      match act store with
      | .ok a store => .ok a ⟨store, log⟩
      | .error e store => .error (.table e) ⟨store, log⟩

/-- Makes the table of a name when the name is first met. -/
def openTable (name : String) : EStateM DecodingError Pool Unit := do
  if (← get).store.containsTable name then return
  if (Kind.ofName? name).isNone then note (.unknownAttribute name)
  let layout := layoutOf name
  let columns ← Reads.plain.check (Column.describe name layout.types (layout.map Prod.fst))
  note (.tableCreated name columns.length)
  onStore (Store.makeTable name columns)

/-- Registers a row of the table of a name. -/
def addRow (name : String) (cells : List (Cell String)) :
    EStateM DecodingError Pool (Reference String) := fun pool =>
  match pool with
  | ⟨store, log⟩ =>
    match Store.addRow ⟨name, 0, cells⟩ store with
    | .ok index store =>
      .ok (.typed name index) ⟨store, log.push (.attributeRow ⟨name, index, cells⟩)⟩
    | .error e store => .error (.table e) ⟨store, log⟩

def resolve (pool : Pool) (reference : Reference String) : Except TableError (Row String) :=
  pool.store.resolve reference

/-- The row of the first reference into the table of a name. -/
def find? (pool : Pool) (references : List (Reference String)) (name : String) :
    Except TableError (Option (Row String)) :=
  match references.find? fun reference => reference.table = some name with
  | some reference => some <$> pool.resolve reference
  | none => .ok none

end Pool

end ClassFormat.Attribute
