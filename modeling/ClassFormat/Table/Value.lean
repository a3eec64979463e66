import ClassFormat.Table.Column
import ClassFormat.Text.Quoted

/-!
# References and values

A reference is the index of a row, with the table that the row must be in or
with none. A value is the content of one cell.
-/
namespace ClassFormat

/-- What tells tables apart, and the name it is shown by. -/
class TableTag (τ : Type) where
  label : τ → String

instance : TableTag String := ⟨id⟩

structure Reference (τ : Type) where
  table : Option τ
  index : Nat
deriving Repr, DecidableEq

inductive Value (τ : Type) where
  | byte (n : UInt8)
  | short (n : UInt16)
  | word (n : UInt32)
  | bytes (bytes : List UInt8)
  | shorts (numbers : List UInt16)
  | text (s : String)
  | references (references : List (Reference τ))
deriving Repr, DecidableEq

variable {τ : Type}

namespace Reference

def typed (table : τ) (index : Nat) : Reference τ := ⟨some table, index⟩

def untyped (index : Nat) : Reference τ := ⟨none, index⟩

/-- The table, if there is one, and the index behind a number sign. -/
def display [TableTag τ] (reference : Reference τ) : String :=
  match reference.table with
  | some table => s!"{TableTag.label table}#{reference.index}"
  | none => s!"#{reference.index}"

end Reference

namespace Value

def shape : Value τ → Shape
  | byte _ => .byte
  | short _ => .short
  | word _ => .word
  | bytes _ => .bytes
  | shorts _ => .shorts
  | text _ => .text
  | references _ => .references

def byte? : Value τ → Option UInt8
  | byte n => some n
  | _ => none

def short? : Value τ → Option UInt16
  | short n => some n
  | _ => none

def word? : Value τ → Option UInt32
  | word n => some n
  | _ => none

def bytes? : Value τ → Option (List UInt8)
  | bytes list => some list
  | _ => none

def shorts? : Value τ → Option (List UInt16)
  | shorts numbers => some numbers
  | _ => none

def text? : Value τ → Option String
  | text s => some s
  | _ => none

def references? : Value τ → Option (List (Reference τ))
  | references list => some list
  | _ => none

/-- Items between square brackets. -/
def listing (items : List String) : String :=
  "[" ++ ", ".intercalate items ++ "]"

/-- Numbers in decimal, text in quotes, lists in brackets; of bytes only their
number. -/
def display [TableTag τ] : Value τ → String
  | byte n => toString n.toNat
  | short n => toString n.toNat
  | word n => toString n.toNat
  | bytes list => s!"({list.length} bytes)"
  | shorts numbers => listing (numbers.map fun n => toString n.toNat)
  | text s => Text.quoted s
  | references list => listing (list.map Reference.display)

end Value

end ClassFormat
