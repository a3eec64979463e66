import ClassFormat.DecodingError
import ClassFormat.Bytes.BigEndian

/-!
# Byte sources and windows

A `Source` is the content of a file, read by absolute offset. A `Window` is a
range of it with a cursor, read from front to back; it never reads past its
end. What a window still has to give is the list `Window.rest`.

Offsets are four-byte numbers. They are natural numbers here, and the places
where four bytes make a difference say so: an offset past the last one stays
at the last one (`saturate`), and the length of a source counts modulo `2^32`
when a window is opened up to its end.
-/
namespace ClassFormat

/-- An array of bytes is one of packed bytes. -/
instance coeBytes : Coe (Array UInt8) ByteArray := ⟨ByteArray.mk⟩

instance reprBytes : Repr ByteArray := ⟨fun content => reprPrec content.data⟩

/-- The largest offset. -/
def maxOffset : Nat := 0xFFFFFFFF

def saturate (offset : Nat) : Nat := min offset maxOffset

/-- A range of bytes with a cursor, and the absolute offset of its first byte. -/
structure Window where
  content : ByteArray
  start : Nat
  cursor : Nat
  stop : Nat
  base : Nat
  start_le_cursor : start ≤ cursor
  cursor_le_stop : cursor ≤ stop
  stop_le_size : stop ≤ content.size
deriving Repr

namespace Window

/-- The bytes that the window is a range of. -/
def bytes (w : Window) : Array UInt8 := w.content.data

@[simp] theorem size_bytes (w : Window) : w.bytes.size = w.content.size := ByteArray.size_data

theorem data_extract (w : Window) (first behind : Nat) :
    (w.content.extract first behind).data = w.bytes.extract first behind :=
  ByteArray.data_extract

/-- All of `bytes`, from an absolute offset on. -/
def ofArray (bytes : Array UInt8) (base : Nat) : Window where
  content := ⟨bytes⟩
  start := 0
  cursor := 0
  stop := bytes.size
  base := base
  start_le_cursor := Nat.le_refl 0
  cursor_le_stop := Nat.zero_le _
  stop_le_size := Nat.le_refl _

def size (w : Window) : Nat := w.stop - w.start

/-- The number of bytes already read. -/
def position (w : Window) : Nat := w.cursor - w.start

/-- The number of bytes still to read. -/
def remaining (w : Window) : Nat := w.stop - w.cursor

/-- The absolute offset of the next byte. -/
def offset (w : Window) : Nat := saturate (w.base + w.position)

/-- The bytes still to read. -/
def rest (w : Window) : List UInt8 := (w.content.extract w.cursor w.stop).data.toList

@[simp] theorem length_rest (w : Window) : w.rest.length = w.remaining := by
  have := w.stop_le_size
  simp only [rest, remaining, Array.length_toList, ByteArray.size_data, ByteArray.size_extract]
  omega

theorem position_add_remaining (w : Window) : w.position + w.remaining = w.size := by
  have := w.start_le_cursor
  have := w.cursor_le_stop
  simp only [position, remaining, size]
  omega

/-- Moves the cursor over `n` bytes that are there. -/
def advance (w : Window) (n : Nat) (h : w.cursor + n ≤ w.stop) : Window :=
  { w with
    cursor := w.cursor + n
    start_le_cursor := Nat.le_add_right_of_le w.start_le_cursor
    cursor_le_stop := h }

theorem rest_advance (w : Window) (n : Nat) (h : w.cursor + n ≤ w.stop) :
    (w.advance n h).rest = w.rest.drop n := by
  simp [advance, rest, List.drop_drop, List.extract_eq_take_drop, List.drop_take, Nat.sub_sub]

end Window

/-- A computation that reads a window from front to back. A failure reads
nothing. -/
abbrev WindowReader := StateT Window (Except DecodingError)

namespace Window

/-- The next `n` bytes, which count as a record of their own. -/
def record (n : Nat) : WindowReader (List UInt8) := fun w =>
  if h : w.cursor + n ≤ w.stop then
    .ok ((w.content.extract w.cursor (w.cursor + n)).data.toList, w.advance n h)
  else .error (.read w.offset .endOfData)

def number (width : Nat) : WindowReader Nat := do
  return BigEndian.value (← record width)

def byte : WindowReader UInt8 := do
  return UInt8.ofNat (← number 1)

def short : WindowReader UInt16 := do
  return UInt16.ofNat (← number 2)

def word : WindowReader UInt32 := do
  return UInt32.ofNat (← number 4)

/-- A window on the next `n` bytes. -/
def split (n : Nat) : WindowReader Window := fun w =>
  if h : w.cursor + n ≤ w.stop then
    .ok ({ content := w.content, start := w.cursor, cursor := w.cursor, stop := w.cursor + n,
           base := w.offset, start_le_cursor := Nat.le_refl _,
           cursor_le_stop := Nat.le_add_right _ _,
           stop_le_size := Nat.le_trans h w.stop_le_size }, w.advance n h)
  else .error (.outOfBounds w.offset n w.size)

/-- The next `n` bytes as a list. -/
def take (n : Nat) : WindowReader (List UInt8) := do
  return (← split n).rest

/-- All bytes that are left. -/
def takeRest : WindowReader (List UInt8) := fun w =>
  .ok (w.rest, w.advance w.remaining (by
    have := w.cursor_le_stop
    simp only [remaining]
    omega))

/-- A record of several fields. A fault in any of them is one of the record,
and is reported where the record starts. -/
def fields {α : Type} (read : WindowReader α) : WindowReader α := fun w =>
  match read w with
  | .error (.read _ fault) => .error (.read w.offset fault)
  | result => result

end Window

/-- The content of a file. -/
structure Source where
  content : ByteArray
deriving Repr

namespace Source

def bytes (source : Source) : Array UInt8 := source.content.data

def size (source : Source) : Nat := source.content.size

@[simp] theorem size_toArray (bytes : List UInt8) : size ⟨bytes.toArray⟩ = bytes.length := rfl

@[simp] theorem bytes_toArray (bytes : List UInt8) : Source.bytes ⟨bytes.toArray⟩ = bytes.toArray :=
  rfl

@[simp] theorem size_bytes (source : Source) : source.bytes.size = source.size :=
  ByteArray.size_data

theorem data_extract (source : Source) (first behind : Nat) :
    (source.content.extract first behind).data = source.bytes.extract first behind :=
  ByteArray.data_extract

/-- A window on `length` bytes from `offset` on. -/
def window (source : Source) (offset length : Nat) : Except DecodingError Window :=
  if h : offset + length ≤ source.size then
    .ok { content := source.content, start := offset, cursor := offset, stop := offset + length,
          base := offset, start_le_cursor := Nat.le_refl _,
          cursor_le_stop := Nat.le_add_right _ _, stop_le_size := h }
  else .error (.outOfBounds offset length source.size)

/-- A window on all bytes from `offset` on, by the length modulo `2^32`. -/
def windowFrom (source : Source) (offset : Nat) : Except DecodingError Window :=
  let length := source.size % (maxOffset + 1)
  if offset ≤ length then source.window offset (length - offset)
  else .error (.outOfBounds offset 0 source.size)

/-- The `length` bytes from `offset` on. -/
def slice (source : Source) (offset length : Nat) : Except DecodingError (List UInt8) := do
  return (← source.window offset length).rest

/-- The number in the `width` bytes from `offset` on. -/
def number (source : Source) (width offset : Nat) : Except DecodingError Nat := do
  let w ← source.window offset width
  return (← (Window.number width).run w).1

def byte (source : Source) (offset : Nat) : Except DecodingError UInt8 := do
  return UInt8.ofNat (← source.number 1 offset)

def short (source : Source) (offset : Nat) : Except DecodingError UInt16 := do
  return UInt16.ofNat (← source.number 2 offset)

def word (source : Source) (offset : Nat) : Except DecodingError UInt32 := do
  return UInt32.ofNat (← source.number 4 offset)

end Source

end ClassFormat
