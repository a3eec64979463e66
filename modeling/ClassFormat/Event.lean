import ClassFormat.Constant.Tag
import ClassFormat.Table.Row
import ClassFormat.Text.Hexadecimal

/-!
# Decoding events

While it decodes, the library notes what it meets. An event is data; its level,
the component it comes from and its wording are functions of it.
-/
namespace ClassFormat

inductive Event where
  | constantsBegun (offset slots : Nat)
  | constantRead (row : Row Constant.Tag)
  | unknownAttribute (name : String)
  | tableCreated (name : String) (columns : Nat)
  | attributeRow (row : Row String)
  /-- An attribute whose payload goes on behind what its kind asks for. -/
  | unreadBytes (name : String) (offset count : Nat)
  | classBegun (major minor : Nat)
  | trailingBytes (count : Nat)
  | classRead (fields methods attributes rows : Nat)
deriving Repr, DecidableEq

/-- From the rarest events to the most frequent ones. -/
inductive Level where
  | warning | debug | trace
deriving Repr, DecidableEq

inductive Component where
  | constantPool | attributes | classFile
deriving Repr, DecidableEq

def Level.rank : Level → Nat
  | .warning => 0
  | .debug => 1
  | .trace => 2

namespace Event

def level : Event → Level
  | unknownAttribute _ | unreadBytes .. | trailingBytes _ => .warning
  | constantsBegun .. | tableCreated .. | classBegun .. | classRead .. => .debug
  | constantRead _ | attributeRow _ => .trace

def component : Event → Component
  | constantsBegun .. | constantRead _ => .constantPool
  | unknownAttribute _ | tableCreated .. | attributeRow _ | unreadBytes .. => .attributes
  | classBegun .. | trailingBytes _ | classRead .. => .classFile

open Text in
def message : Event → String
  | constantsBegun offset slots =>
    s!"Reading constant pool at {offsetText offset}, {slots} slots"
  | constantRead row => s!"#{row.index} = {row.table.name} {row.displayCells}"
  | unknownAttribute name => s!"Unknown attribute {name}, kept as raw bytes"
  | tableCreated name columns => s!"Creating attribute table {name} ({columns} columns)"
  | attributeRow row => s!"#{row.index} = {row.table} {row.displayCells}"
  | unreadBytes name offset count =>
    s!"Attribute {name} at {offsetText offset} left {count} unread bytes"
  | classBegun major minor => s!"Reading class file version {major}.{minor}"
  | trailingBytes count => s!"{count} trailing bytes after the class file"
  | classRead fields methods attributes rows =>
    s!"Read {fields} fields, {methods} methods, {attributes} attributes ({rows} attribute rows)"

end Event

/-- The events of a level and of the rarer ones. -/
def eventsUpTo (level : Level) (events : Array Event) : Array Event :=
  events.filter fun event => event.level.rank ≤ level.rank

end ClassFormat
