import ClassFormat.Bytes.Reads
import ClassFormat.Proofs.Bytes.Twin
import ClassFormat.Proofs.Checked

/-!
# Checked reads of bytes

A `Cursor` is a window as bare numbers: an array of its own and a position that
nothing but the checks keeps inside. The reads of cursors and sources are written
out once more, with a check wherever a number or a range is made. On the windows
of a source of less than `2^32` bytes they mirror the plain ones.
-/
namespace ClassFormat

open Checked

structure Cursor where
  bytes : Array UInt8
  position : Nat
  base : Nat

abbrev CursorReader := StateT Cursor (Except Stop)

namespace Cursor

/-- The number of bytes already read. -/
def tell (c : Cursor) : Except Stop Nat := fit c.position

/-- The absolute offset of the next byte. -/
def offset (c : Cursor) : Except Stop Nat := do
  add c.base (← c.tell)

/-- The number of bytes still to read. -/
def remaining (c : Cursor) : Except Stop Nat := do
  sub (← fit c.bytes.size) (← c.tell)

/-- The cursor at a later position, which must lie in its bytes. -/
def goTo (c : Cursor) (position : Nat) : Except Stop Cursor :=
  if c.position ≤ position ∧ position ≤ c.bytes.size then .ok { c with position }
  else .error .fault

def record (n : Nat) : CursorReader (List UInt8) := fun c => do
  let start ← c.offset
  if c.position + n ≤ c.bytes.size then
    let bytes ← range c.bytes c.position (c.position + n)
    return (bytes.toList, ← c.goTo (c.position + n))
  else throw (.failure (.read start .endOfData))

def number (width : Nat) : CursorReader Nat := do
  return BigEndian.value (← record width)

def byte : CursorReader UInt8 := do
  return UInt8.ofNat (← number 1)

def short : CursorReader UInt16 := do
  return UInt16.ofNat (← number 2)

def word : CursorReader UInt32 := do
  return UInt32.ofNat (← number 4)

/-- A cursor on the next `n` bytes. -/
def split (n : Nat) : CursorReader Cursor := fun c => do
  let start ← c.offset
  if c.position + n ≤ c.bytes.size then
    let bytes ← range c.bytes c.position (c.position + n)
    return (⟨bytes, 0, start⟩, ← c.goTo (c.position + bytes.size))
  else throw (.failure (.outOfBounds start n c.bytes.size))

def take (n : Nat) : CursorReader (List UInt8) := do
  return (← split n).bytes.toList

def takeRest : CursorReader (List UInt8) := fun c => do
  let bytes ← range c.bytes c.position c.bytes.size
  return (bytes.toList, ← c.goTo c.bytes.size)

def fields {α : Type} (read : CursorReader α) : CursorReader α := fun c => do
  let start ← c.offset
  match read c with
  | .error (.failure (.read _ fault)) => .error (.failure (.read start fault))
  | result => result

end Cursor

namespace Source

def cursor (source : Source) (offset length : Nat) : Except Stop Cursor :=
  if offset + length ≤ source.size then do
    return ⟨← range source.bytes offset (offset + length), 0, offset⟩
  else throw (.failure (.outOfBounds offset length source.size))

/-- A cursor on all bytes from `offset` on. -/
def cursorFrom (source : Source) (offset : Nat) : Except Stop Cursor := do
  let length ← fit source.size
  if offset ≤ length then source.cursor offset (← sub length offset)
  else throw (.failure (.outOfBounds offset 0 source.size))

def checkedSlice (source : Source) (offset length : Nat) : Except Stop (List UInt8) := do
  return (← source.cursor offset length).bytes.toList

def checkedNumber (source : Source) (width offset : Nat) : Except Stop Nat := do
  let c ← source.cursor offset width
  return (← (Cursor.number width).run c).1

def checkedByte (source : Source) (offset : Nat) : Except Stop UInt8 := do
  return UInt8.ofNat (← source.checkedNumber 1 offset)

def checkedShort (source : Source) (offset : Nat) : Except Stop UInt16 := do
  return UInt16.ofNat (← source.checkedNumber 2 offset)

def checkedWord (source : Source) (offset : Nat) : Except Stop UInt32 := do
  return UInt32.ofNat (← source.checkedNumber 4 offset)

end Source

abbrev Reads.checked : Reads Stop Cursor where
  failure := .failure
  plainly := Checked.plainly
  fit := Checked.fit
  add := Checked.add
  sub := Checked.sub
  behind := Checked.add
  byteAt := Source.checkedByte
  shortAt := Source.checkedShort
  wordAt := Source.checkedWord
  slice := Source.checkedSlice
  window := Source.cursor
  windowFrom := Source.cursorFrom
  move source := Checked.move source.size
  number := Cursor.number
  byte := Cursor.byte
  short := Cursor.short
  word := Cursor.word
  take := Cursor.take
  takeRest := Cursor.takeRest
  split := Cursor.split
  fields := Cursor.fields
  position := Cursor.tell
  offset := Cursor.offset
  remaining := Cursor.remaining

namespace Window

variable {w w' v : Window} {n : Nat}

/-- The numbers of the window, with bytes of its own. -/
def bare (w : Window) : Cursor := ⟨w.bytes.extract w.start w.stop, w.position, w.base⟩

/-- All offsets of the window are numbers of four bytes. -/
def Placed (w : Window) : Prop := w.base + w.size < 2 ^ 32

theorem size_bare (w : Window) : w.bare.bytes.size = w.size := by
  have := w.stop_le_size
  simp only [bare, size, Array.size_extract, size_bytes]
  omega

theorem position_le_size (w : Window) : w.position ≤ w.size := by
  have := w.position_add_remaining
  omega

/-- Of a window that nothing was read from, all bytes are left. -/
theorem toList_bare (w : Window) (start : w.position = 0) : w.bare.bytes.toList = w.rest := by
  have := w.start_le_cursor
  rw [position] at start
  have front : w.start = w.cursor := by omega
  rw [rest, data_extract, bare, front]

theorem Consumes.placed {bytes : List UInt8} (h : w.Consumes bytes w') (placed : w.Placed) :
    w'.Placed := by
  rw [h.moved]
  exact placed

theorem tell_bare (placed : w.Placed) : w.bare.tell = .ok w.position := by
  have := w.position_le_size
  unfold Placed at placed
  have bound : w.position < 2 ^ 32 := by omega
  exact fit_eq bound

theorem offset_bare (placed : w.Placed) : w.bare.offset = .ok w.offset := by
  have := w.position_le_size
  unfold Placed at placed
  have bound : w.base + w.position < 2 ^ 32 := by omega
  rw [Cursor.offset, tell_bare placed, offset, saturate_of_lt bound]
  exact add_eq bound

theorem remaining_bare (placed : w.Placed) : w.bare.remaining = .ok w.remaining := by
  have whole := w.position_add_remaining
  unfold Placed at placed
  have rest : w.size - w.position = w.remaining := by omega
  rw [Cursor.remaining, tell_bare placed, size_bare, fit_eq (by omega), ← rest]
  exact sub_eq w.position_le_size

theorem goTo_bare (h : w.cursor + n ≤ w.stop) :
    w.bare.goTo (w.position + n) = .ok (w.advance n h).bare := by
  have := w.start_le_cursor
  have inside : w.position ≤ w.position + n ∧ w.position + n ≤ w.bare.bytes.size := by
    rw [size_bare]
    simp only [position, size]
    omega
  have moved : (w.advance n h).position = w.position + n := by
    simp only [position, advance]
    omega
  have bare_advance : (w.advance n h).bare = { w.bare with position := w.position + n } := by
    rw [← moved]
    rfl
  rw [bare_advance]
  exact if_pos inside

theorem range_bare (h : w.cursor + n ≤ w.stop) :
    range w.bare.bytes w.position (w.position + n) =
      .ok (w.bytes.extract w.cursor (w.cursor + n)) := by
  have := w.start_le_cursor
  have inside : w.position + n ≤ w.bare.bytes.size := by
    rw [size_bare]
    simp only [position, size]
    omega
  have front : w.start + w.position = w.cursor := by
    simp only [position]
    omega
  have behind : min (w.start + (w.position + n)) w.stop = w.cursor + n := by
    simp only [position]
    omega
  rw [range_eq (Nat.le_add_right _ _) inside]
  change Except.ok ((w.bytes.extract w.start w.stop).extract w.position (w.position + n)) = _
  rw [Array.extract_extract, front, behind]

theorem placed_of_split (run : split n w = .ok (v, w')) (placed : w.Placed) : v.Placed := by
  have first := w.start_le_cursor
  unfold split at run
  split at run
  next h =>
    cases run
    have lower : w.offset ≤ w.base + w.position := Nat.min_le_left _ _
    simp only [Placed, size, position] at placed lower ⊢
    omega
  next => cases run

theorem fits_bare : w.bare.position + n ≤ w.bare.bytes.size ↔ w.cursor + n ≤ w.stop := by
  have := w.start_le_cursor
  have := w.cursor_le_stop
  rw [size_bare]
  simp only [bare, position, size]
  omega

end Window

namespace Cursor

/-- The checked read does on the cursor of a window what the plain one does on the
window, which moves on in its bytes. -/
structure Mirrors {α β : Type} (f : α → β) (x : CursorReader β) (y : WindowReader α) : Prop where
  same : ∀ w, w.Placed → x w.bare = told (fun r => (f r.1, r.2.bare)) (y w)
  consumes : ∀ {w w' a}, y w = .ok (a, w') → ∃ bytes, w.Consumes bytes w'

variable {α β γ δ : Type}

namespace Mirrors

theorem pure {f : α → β} {a : α} : Mirrors f (Pure.pure (f a)) (Pure.pure a) where
  same _ _ := rfl
  consumes := by
    intro w w' b run
    obtain ⟨-, rfl⟩ := Window.pure_eq_ok.mp run
    exact ⟨[], Window.Consumes.nil_iff.mpr rfl⟩

theorem throw {f : α → β} (e : DecodingError) :
    Mirrors f (MonadExcept.throw (Stop.failure e)) (MonadExcept.throw e) where
  same _ _ := rfl
  consumes := by
    intro w w' a run
    cases run

theorem bind {f : α → β} {g : γ → δ} {x : CursorReader β} {y : WindowReader α}
    {next : β → CursorReader δ} {next' : α → WindowReader γ} (first : Mirrors f x y)
    (second : ∀ a, Mirrors g (next (f a)) (next' a)) : Mirrors g (x >>= next) (y >>= next') where
  same := by
    intro w placed
    change (x w.bare >>= fun r => next r.1 r.2) = told _ (y w >>= fun r => next' r.1 r.2)
    refine told_bind (first.same w placed) ?_
    rintro ⟨a, v⟩ run
    obtain ⟨bytes, consumes⟩ := first.consumes run
    exact (second a).same v (consumes.placed placed)
  consumes := by
    intro w w' b run
    obtain ⟨a, v, run, later⟩ := Window.bind_eq_ok.mp run
    obtain ⟨bytes, consumes⟩ := first.consumes run
    obtain ⟨bytes', consumes'⟩ := (second a).consumes later
    exact ⟨bytes ++ bytes', consumes.append consumes'⟩

/-- What is done with a result matters to neither. -/
theorem map {f : α → β} {x : CursorReader β} {y : WindowReader α} (h : Mirrors f x y) {g : β → δ}
    {g' : α → δ} (agree : ∀ a, g (f a) = g' a) :
    Mirrors id (do return g (← x)) (do return g' (← y)) := by
  refine h.bind fun a => ?_
  rw [agree]
  exact pure

theorem fields {f : α → β} {x : CursorReader β} {y : WindowReader α} (h : Mirrors f x y) :
    Mirrors f (Cursor.fields x) (Window.fields y) where
  same := by
    intro w placed
    have run : Cursor.fields x w.bare = match x w.bare with
        | .error (.failure (.read _ fault)) => .error (.failure (.read w.offset fault))
        | result => result := by
      rw [Cursor.fields, Window.offset_bare placed]
      rfl
    rw [run, h.same w placed, Window.fields]
    cases y w with
    | ok r => rfl
    | error e => cases e <;> rfl
  consumes run := h.consumes (Window.fields_eq_ok.mp run)

end Mirrors

theorem mirrors_record (n : Nat) : Mirrors id (record n) (Window.record n) where
  same := by
    intro w placed
    unfold record Window.record
    rw [Window.offset_bare placed]
    by_cases h : w.cursor + n ≤ w.stop
    · have moved := Window.goTo_bare h
      have bytes := Window.range_bare h
      simp only [bind, Except.bind]
      rw [if_pos (Window.fits_bare.mpr h), dif_pos h]
      change (do
        let bytes ← range w.bare.bytes w.position (w.position + n)
        return (bytes.toList, ← w.bare.goTo (w.position + n))) = _
      rw [bytes, moved, ← Window.data_extract]
      rfl
    · simp only [bind, Except.bind]
      rw [if_neg (mt Window.fits_bare.mp h), dif_neg h]
      rfl
  consumes run := ⟨_, (Window.record_eq_ok.mp run).2⟩

theorem mirrors_number (width : Nat) : Mirrors id (number width) (Window.number width) :=
  (mirrors_record width).map fun _ => rfl

theorem mirrors_byte : Mirrors id byte Window.byte := (mirrors_number 1).map fun _ => rfl

theorem mirrors_short : Mirrors id short Window.short := (mirrors_number 2).map fun _ => rfl

theorem mirrors_word : Mirrors id word Window.word := (mirrors_number 4).map fun _ => rfl

theorem mirrors_split (n : Nat) : Mirrors Window.bare (split n) (Window.split n) where
  same := by
    intro w placed
    unfold split Window.split
    rw [Window.offset_bare placed]
    by_cases h : w.cursor + n ≤ w.stop
    · have size : (w.bytes.extract w.cursor (w.cursor + n)).size = n := by
        have := w.stop_le_size
        rw [Array.size_extract, Window.size_bytes]
        omega
      have moved := Window.goTo_bare h
      have bytes := Window.range_bare h
      simp only [bind, Except.bind]
      rw [if_pos (Window.fits_bare.mpr h), dif_pos h]
      change (do
        let bytes ← range w.bare.bytes w.position (w.position + n)
        return (Cursor.mk bytes 0 w.offset, ← w.bare.goTo (w.position + bytes.size))) = _
      rw [bytes]
      simp only [bind, Except.bind]
      rw [size, moved]
      simp [told, Window.bare, Window.bytes, Window.position, Pure.pure, Except.pure]
    · simp only [bind, Except.bind]
      rw [if_neg (mt Window.fits_bare.mp h), dif_neg h, Window.size_bare]
      rfl
  consumes run := ⟨_, (Window.split_eq_ok run).2.1⟩

theorem mirrors_take (n : Nat) : Mirrors id (take n) (Window.take n) where
  same := by
    intro w placed
    change (split n w.bare >>= fun r => Pure.pure (r.1.bytes.toList, r.2)) =
      told _ (Window.split n w >>= fun r => Pure.pure (r.1.rest, r.2))
    refine told_bind ((mirrors_split n).same w placed) ?_
    rintro ⟨v, w'⟩ run
    change Except.ok (v.bare.bytes.toList, w'.bare) = .ok (v.rest, w'.bare)
    rw [v.toList_bare (Window.position_of_split run)]
  consumes run := ⟨_, (Window.take_eq_ok.mp run).2⟩

theorem mirrors_takeRest : Mirrors id takeRest Window.takeRest where
  same := by
    intro w _
    have fits : w.cursor + w.remaining ≤ w.stop := by
      have := w.cursor_le_stop
      simp only [Window.remaining]
      omega
    have last : w.cursor + w.remaining = w.stop := by
      have := w.cursor_le_stop
      simp only [Window.remaining]
      omega
    have whole : w.bare.bytes.size = w.position + w.remaining := by
      rw [Window.size_bare, w.position_add_remaining]
    change (do
      let bytes ← range w.bare.bytes w.position w.bare.bytes.size
      return (bytes.toList, ← w.bare.goTo w.bare.bytes.size)) = _
    rw [whole, Window.range_bare fits, Window.goTo_bare fits, last, ← Window.data_extract]
    rfl
  consumes run := ⟨_, (Window.takeRest_eq_ok.mp run).1⟩

end Cursor

namespace Source

variable {source : Source} {offset n : Nat}

theorem placed_of_window (small : source.size < 2 ^ 32) {w : Window}
    (run : source.window offset n = .ok w) : w.Placed := by
  unfold window at run
  split at run
  next h =>
    cases run
    simp only [Window.Placed, Window.size]
    omega
  next => cases run

theorem cursor_eq (source : Source) (offset n : Nat) :
    source.cursor offset n = told Window.bare (source.window offset n) := by
  unfold cursor window
  by_cases h : offset + n ≤ source.size
  · have inside : offset + n ≤ source.bytes.size := by rwa [size_bytes]
    rw [if_pos h, dif_pos h, range_eq (Nat.le_add_right _ _) inside]
    simp [told, Window.bare, Window.bytes, bytes, Window.position, bind, Except.bind, pure,
      Except.pure]
  · rw [if_neg h, dif_neg h]
    rfl

theorem cursorFrom_eq (small : source.size < 2 ^ 32) (offset : Nat) :
    source.cursorFrom offset = told Window.bare (source.windowFrom offset) := by
  have whole : source.size % (maxOffset + 1) = source.size := Nat.mod_eq_of_lt small
  unfold cursorFrom windowFrom
  rw [whole, fit_eq small]
  simp only [bind, Except.bind]
  by_cases h : offset ≤ source.size
  · rw [if_pos h, if_pos h, sub_eq h]
    exact cursor_eq source offset _
  · rw [if_neg h, if_neg h]
    rfl

theorem placed_of_windowFrom (small : source.size < 2 ^ 32) {w : Window}
    (run : source.windowFrom offset = .ok w) : w.Placed :=
  placed_of_window small ((windowFrom_eq_ok small).mp run).2

theorem checkedSlice_eq (offset n : Nat) :
    source.checkedSlice offset n = told id (source.slice offset n) := by
  refine told_bind (cursor_eq source offset n) fun w run => ?_
  obtain ⟨-, -, -, -, start⟩ := window_eq_ok run
  exact congrArg Except.ok (w.toList_bare start)

variable (small : source.size < 2 ^ 32)

include small

theorem checkedNumber_eq (width offset : Nat) :
    source.checkedNumber width offset = told id (source.number width offset) := by
  refine told_bind (cursor_eq source offset width) fun w run => ?_
  have same := (Cursor.mirrors_number width).same w (placed_of_window small run)
  exact told_bind same fun r _ => rfl

theorem checkedByte_eq (offset : Nat) :
    source.checkedByte offset = told id (source.byte offset) :=
  told_bind (checkedNumber_eq small _ offset) fun _ _ => rfl

theorem checkedShort_eq (offset : Nat) :
    source.checkedShort offset = told id (source.short offset) :=
  told_bind (checkedNumber_eq small _ offset) fun _ _ => rfl

theorem checkedWord_eq (offset : Nat) :
    source.checkedWord offset = told id (source.word offset) :=
  told_bind (checkedNumber_eq small _ offset) fun _ _ => rfl

/-- An offset is never too large to be moved over bytes that are there. -/
theorem mirrors_advance {σ : Type} {offset : σ → Nat} {put : σ → Nat → σ}
    (kept : ∀ s n, offset (put s n) = n) {s : σ} {n : Nat} (inside : offset s + n ≤ source.size) :
    (Scope.offsets source offset).MirrorsAt s id (Reads.checked.advance source offset put n)
      (Reads.plain.advance source offset put n) := by
  have whole : saturate (offset s + n) = offset s + n :=
    saturate_of_lt (Nat.lt_of_le_of_lt inside small)
  constructor
  · have moved : Reads.checked.move source (offset s) n = .ok (offset s + n) :=
      move_eq small inside
    change Reads.checked.advance source offset put n s = .ok () (put s (saturate (offset s + n)))
    rw [Reads.advance, moved, whole]
  · change offset s ≤ offset (put s (saturate (offset s + n))) ∧
      (offset s ≤ source.size → offset (put s (saturate (offset s + n))) ≤ source.size)
    rw [kept, whole]
    exact ⟨Nat.le_add_right _ _, fun _ => inside⟩

end Source

theorem Scope.mirrors_check {σ ρ α : Type} {S : Scope σ ρ} (result : Except TableError α) :
    S.Mirrors id (Reads.checked.check result) (Reads.plain.check result) := by
  refine fun s _ => .answer ?_
  cases result <;> rfl

end ClassFormat
