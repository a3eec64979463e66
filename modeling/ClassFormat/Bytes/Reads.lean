import ClassFormat.Bytes.Source
import ClassFormat.Repetition

/-!
# What decoders ask of bytes

A decoder is written down once, for whatever reads its bytes and works out its
numbers. `Reads.plain` are the reads of sources and windows, with offsets that stay
at the last one.
-/
namespace ClassFormat

/-- Reads of sources by offset, and of windows `W` from front to back, which may stop
for the reasons `ε`. -/
structure Reads (ε W : Type) where
  failure : DecodingError → ε
  /-- A computation without bytes and offsets. -/
  plainly {σ α : Type} : EStateM DecodingError σ α → EStateM ε σ α
  /-- A length as a number of four bytes. -/
  fit : Nat → Except ε Nat
  add : Nat → Nat → Except ε Nat
  sub : Nat → Nat → Except ε Nat
  /-- The offset so many bytes further on. -/
  behind : Nat → Nat → Except ε Nat
  byteAt : Source → Nat → Except ε UInt8
  shortAt : Source → Nat → Except ε UInt16
  wordAt : Source → Nat → Except ε UInt32
  slice : Source → Nat → Nat → Except ε (List UInt8)
  window : Source → Nat → Nat → Except ε W
  windowFrom : Source → Nat → Except ε W
  /-- The offset behind so many bytes that were read from a source. -/
  move : Source → Nat → Nat → Except ε Nat
  number : Nat → StateT W (Except ε) Nat
  byte : StateT W (Except ε) UInt8
  short : StateT W (Except ε) UInt16
  word : StateT W (Except ε) UInt32
  take : Nat → StateT W (Except ε) (List UInt8)
  takeRest : StateT W (Except ε) (List UInt8)
  split : Nat → StateT W (Except ε) W
  /-- A record of several fields. -/
  fields {α : Type} : StateT W (Except ε) α → StateT W (Except ε) α
  /-- The number of bytes already read. -/
  position : W → Except ε Nat
  /-- The absolute offset of the next byte. -/
  offset : W → Except ε Nat
  /-- The number of bytes still to read. -/
  remaining : W → Except ε Nat

namespace Reads

variable {ε W σ α : Type}

/-- A check of the tables, and the error of a table if it fails. -/
def check (S : Reads ε W) (result : Except TableError α) : EStateM ε σ α :=
  ofExcept (result.mapError fun e => S.failure (.table e))

/-- Moves an offset that is kept in a state over so many bytes of a source. -/
def advance (S : Reads ε W) (source : Source) (offset : σ → Nat) (put : σ → Nat → σ) (n : Nat) :
    EStateM ε σ Unit := fun s =>
  match S.move source (offset s) n with
  | .ok next => .ok () (put s next)
  | .error e => .error e s

abbrev plain : Reads DecodingError Window where
  failure e := e
  plainly act := act
  fit n := .ok n
  add m n := .ok (m + n)
  sub m n := .ok (m - n)
  behind offset n := .ok (saturate (offset + n))
  byteAt := Source.byte
  shortAt := Source.short
  wordAt := Source.word
  slice := Source.slice
  window := Source.window
  windowFrom := Source.windowFrom
  move _ offset n := .ok (saturate (offset + n))
  number := Window.number
  byte := Window.byte
  short := Window.short
  word := Window.word
  take := Window.take
  takeRest := Window.takeRest
  split := Window.split
  fields := Window.fields
  position w := .ok w.position
  offset w := .ok w.offset
  remaining w := .ok w.remaining

end Reads

end ClassFormat
