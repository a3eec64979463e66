import ClassFormat.Attribute.Decoder
import ClassFormat.Attribute.Tree

/-!
# Planting trees

`Tree.plant` is what is left of reading an attribute when the bytes are taken
away: the tables and rows that a tree makes in a pool, in the order in which
they are made. It takes the offset of the payload, which shows in the events
only.
-/
namespace ClassFormat.Attribute

abbrev Planter := EStateM DecodingError Pool

/-- The number itself, or how many of them there are. -/
def Plain.number : Plain → Nat
  | byte n => n.toNat
  | short n => n.toNat
  | word n => n.toNat
  | bytes list | raw list => list.length
  | shorts numbers => numbers.length

def Plain.cell (field : Plain) (column : Column String) : Cell String :=
  ⟨column, field.number, field.encode.length, field.value⟩

def Record.cells (record : Record) (columns : List (Column String)) : List (Cell String) :=
  List.zipWith Plain.cell record columns

/-- Opens the table of a name, makes the cells, and registers them as a row. -/
def plantRow (name : String) (cells : Planter (List (Cell String))) :
    Planter (Reference String) := do
  Pool.openTable name
  let cells ← cells
  Pool.addRow name cells

def Record.plant (entry : Entry) (record : Record) : Planter (Reference String) :=
  plantRow entry.tableName (pure (record.cells (columnsOf entry.tableName)))

def noteUnread (name : String) (offset count : Nat) : Planter Unit :=
  if 0 < count then Pool.note (.unreadBytes name offset count) else pure ()

mutual

def Field.plant (offset : Nat) (column : Column String) : Field → Planter (Cell String)
  | .plain field => pure (field.cell column)
  | .entries entry records => do
    let references ← records.mapM (Record.plant entry)
    return ⟨column, records.length,
      (if entry = .methodParameter then 1 else 2) + (records.flatMap Record.encode).length,
      .references references⟩
  | .attributes trees => do
    let references ← plantTrees (saturate (offset + 2)) trees
    return ⟨column, trees.length, 2 + (encodeTrees trees).length, .references references⟩

def plantFields (offset : Nat) : List Field → List (Column String) → Planter (List (Cell String))
  | field :: rest, column :: columns => do
    let cell ← field.plant offset column
    let cells ← plantFields (saturate (offset + field.encode.length)) rest columns
    return cell :: cells
  | _, _ => pure []

def Tree.plant (offset : Nat) : Tree → Planter (Reference String)
  | .node _ name fields unread => do
    let reference ← plantRow name (plantFields offset fields (columnsOf name))
    noteUnread name (saturate (offset + (encodeFields fields).length)) unread.length
    return reference

/-- Every tree stands behind its header. -/
def plantTrees (offset : Nat) : List Tree → Planter (List (Reference String))
  | [] => pure []
  | tree :: rest => do
    let reference ← tree.plant (saturate (offset + Header.size))
    let references ← plantTrees (saturate (offset + tree.encode.length)) rest
    return reference :: references

end

section Names

variable {named named' : Nat → String → Prop}

mutual

theorem Field.Fits.mono (known : ∀ slot name, named slot name → named' slot name) :
    ∀ {field : Field}, field.Fits named → field.Fits named'
  | .plain _, h => h
  | .entries _ _, h => h
  | .attributes _, h => ⟨h.1, TreesFit.mono known h.2⟩

theorem FieldsFit.mono (known : ∀ slot name, named slot name → named' slot name) :
    ∀ {fields : List Field} {types : List ColumnType},
      FieldsFit named fields types → FieldsFit named' fields types
  | [], [], _ => trivial
  | _ :: _, _ :: _, h => ⟨h.1, Field.Fits.mono known h.2.1, FieldsFit.mono known h.2.2⟩
  | [], _ :: _, h => h.elim
  | _ :: _, [], h => h.elim

theorem Tree.Fits.mono (known : ∀ slot name, named slot name → named' slot name) :
    ∀ {tree : Tree}, tree.Fits named → tree.Fits named'
  | .node _ _ _ _, h => ⟨known _ _ h.1, FieldsFit.mono known h.2.1, h.2.2⟩

/-- What can be written with some names can be written with more. -/
theorem TreesFit.mono (known : ∀ slot name, named slot name → named' slot name) :
    ∀ {trees : List Tree}, TreesFit named trees → TreesFit named' trees
  | [], _ => trivial
  | _ :: _, h => ⟨Tree.Fits.mono known h.1, TreesFit.mono known h.2⟩

end

end Names

end ClassFormat.Attribute
