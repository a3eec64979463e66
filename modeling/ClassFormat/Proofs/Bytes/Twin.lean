import Mathlib.Data.List.Infix
import ClassFormat.Proofs.Bytes.Source
import ClassFormat.Proofs.Shortage

/-!
# Windows and sources that begin alike

What a window gives is fixed by the bytes still to read and by where they stand.
Windows that agree in these are twins, whatever else lies around the bytes, and
every read gives the same on both. A source that begins another one answers
like it wherever it has enough bytes.
-/
namespace ClassFormat

/-- A failure inside a record, told of the record. -/
def DecodingError.startingAt (offset : Nat) : DecodingError → DecodingError
  | .read _ fault => .read offset fault
  | e => e

theorem DecodingError.isShort_startingAt (offset : Nat) (e : DecodingError) :
    (e.startingAt offset).isShort = e.isShort := by
  cases e with
  | read start fault => cases fault <;> rfl
  | _ => rfl

namespace Window

/-- The same bytes still to read, at the same offset. -/
structure Twin (w w' : Window) : Prop where
  offset : w.offset = w'.offset
  position : w.position = w'.position
  rest : w.rest = w'.rest

namespace Twin

variable {w w' v : Window} {bytes : List UInt8}

theorem remaining (h : w.Twin w') : w.remaining = w'.remaining := by
  rw [← length_rest, ← length_rest, h.rest]

theorem consumes (h : w.Twin w') (k : w.Consumes bytes v) :
    ∃ v', w'.Consumes bytes v' ∧ v.Twin v' := by
  obtain ⟨v', k', rest⟩ := exists_consumes (h.rest.symm.trans k.rest_eq)
  refine ⟨v', k', ?_, ?_, rest.symm⟩
  · rw [k.offset_eq, k'.offset_eq, h.offset]
  · rw [k.position_eq, k'.position_eq, h.position]

end Twin

variable {α β : Type}

theorem bind_eq_error {read : WindowReader α} {next : α → WindowReader β} {e : DecodingError}
    {w : Window} :
    (read >>= next) w = .error e ↔
      read w = .error e ∨ ∃ a v, read w = .ok (a, v) ∧ next a v = .error e := by
  change (read w >>= fun r => next r.1 r.2) = _ ↔ _
  rw [Except.bind_eq_error, Prod.exists]

theorem fields_eq_error {read : WindowReader α} {e : DecodingError} {w : Window} :
    fields read w = .error e ↔ ∃ cause, read w = .error cause ∧ cause.startingAt w.offset = e := by
  unfold fields
  cases read w with
  | ok r =>
      constructor
      · intro h
        cases h
      · intro h
        obtain ⟨_, impossible, -⟩ := h
        cases impossible
  | error cause =>
      simp only [Except.error.injEq, exists_eq_left']
      cases cause <;> simp only [Except.error.injEq, DecodingError.startingAt]

/-- A read that fails for want of bytes only, and does the same on twins. -/
structure Tame (read : WindowReader α) : Prop where
  short : ∀ {w e}, read w = .error e → e.isShort
  twin : ∀ {w w' v a}, w.Twin w' → read w = .ok (a, v) → ∃ v', read w' = .ok (a, v') ∧ v.Twin v'

namespace Tame

theorem pure (a : α) : Tame (Pure.pure a : WindowReader α) where
  short := by
    intro w e h
    cases h
  twin := by
    intro w w' v b same h
    obtain ⟨rfl, rfl⟩ := pure_eq_ok.mp h
    exact ⟨w', rfl, same⟩

theorem bind {read : WindowReader α} {next : α → WindowReader β} (first : Tame read)
    (second : ∀ a, Tame (next a)) : Tame (read >>= next) where
  short := by
    intro w e h
    rcases bind_eq_error.mp h with h | later
    · exact first.short h
    · obtain ⟨a, v, -, h⟩ := later
      exact (second a).short h
  twin := by
    intro w w' v b same h
    obtain ⟨a, u, run, h⟩ := bind_eq_ok.mp h
    obtain ⟨u', run', same⟩ := first.twin same run
    obtain ⟨v', h', same⟩ := (second a).twin same h
    exact ⟨v', bind_eq_ok.mpr ⟨a, u', run', h'⟩, same⟩

theorem fields {read : WindowReader α} (h : Tame read) : Tame (Window.fields read) where
  short := by
    intro w e failed
    obtain ⟨cause, run, rfl⟩ := fields_eq_error.mp failed
    rw [DecodingError.isShort_startingAt]
    exact h.short run
  twin := by
    intro w w' v a same run
    obtain ⟨v', run', same⟩ := h.twin same (fields_eq_ok.mp run)
    exact ⟨v', fields_eq_ok.mpr run', same⟩

theorem record (n : Nat) : Tame (Window.record n) where
  short := by
    intro w e h
    unfold Window.record at h
    split at h
    next => cases h
    next =>
      cases h
      rfl
  twin := by
    intro w w' v bytes same run
    obtain ⟨len, consumes⟩ := record_eq_ok.mp run
    obtain ⟨v', consumes', same⟩ := same.consumes consumes
    exact ⟨v', record_eq_ok.mpr ⟨len, consumes'⟩, same⟩

end Tame

theorem tame_number (width : Nat) : Tame (number width) :=
  .bind (.record width) fun _ => .pure _

theorem tame_byte : Tame byte := .bind (tame_number 1) fun _ => .pure _

theorem tame_short : Tame short := .bind (tame_number 2) fun _ => .pure _

theorem tame_word : Tame word := .bind (tame_number 4) fun _ => .pure _

theorem isShort_of_split {n : Nat} {e : DecodingError} {w : Window} (h : split n w = .error e) :
    e.isShort := by
  unfold split at h
  split at h
  next => cases h
  next =>
    cases h
    rfl

theorem position_of_split {n : Nat} {w u v : Window} (run : split n w = .ok (u, v)) :
    u.position = 0 := by
  unfold split at run
  split at run
  next =>
    cases run
    exact Nat.sub_self _
  next => cases run

theorem Twin.split {n : Nat} {w w' u v : Window} (same : w.Twin w')
    (run : Window.split n w = .ok (u, v)) :
    ∃ u' v', Window.split n w' = .ok (u', v') ∧ u.Twin u' ∧ v.Twin v' := by
  obtain ⟨len, consumes, place⟩ := split_eq_ok run
  obtain ⟨v', consumes', behind⟩ := same.consumes consumes
  obtain ⟨u', run', rest, place'⟩ := exists_split consumes'
  rw [len] at run'
  refine ⟨u', v', run', ⟨?_, ?_, rest.symm⟩, behind⟩
  · rw [place, place', same.offset]
  · rw [position_of_split run, position_of_split run']

theorem tame_take (n : Nat) : Tame (take n) where
  short := by
    intro w e h
    rcases bind_eq_error.mp h with h | later
    · exact isShort_of_split h
    · obtain ⟨_, _, -, impossible⟩ := later
      cases impossible
  twin := by
    intro w w' v bytes same run
    obtain ⟨len, consumes⟩ := take_eq_ok.mp run
    obtain ⟨v', consumes', same⟩ := same.consumes consumes
    exact ⟨v', take_eq_ok.mpr ⟨len, consumes'⟩, same⟩

theorem tame_takeRest : Tame takeRest where
  short := by
    intro w e h
    cases h
  twin := by
    intro w w' v bytes same run
    obtain ⟨consumes, rest⟩ := takeRest_eq_ok.mp run
    obtain ⟨v', consumes', same⟩ := same.consumes consumes
    exact ⟨v', takeRest_eq_ok.mpr ⟨consumes', same.rest.symm.trans rest⟩, same⟩

end Window

namespace Source

variable {source source' : Source} {offset n : Nat} {bytes : List UInt8}

/-- The bytes of a source come first in another one, whose offsets have four
bytes. -/
structure Begins (source source' : Source) : Prop where
  bytes : source.bytes.toList <+: source'.bytes.toList
  bound : source'.size < 2 ^ 32

theorem Begins.size_le (h : source.Begins source') : source.size ≤ source'.size := by
  rw [← length_bytes, ← length_bytes]
  exact h.bytes.length_le

theorem Begins.small (h : source.Begins source') : source.size < 2 ^ 32 :=
  Nat.lt_of_le_of_lt h.size_le h.bound

theorem Begins.holds (h : source.Begins source') (holds : source.Holds offset bytes) :
    source'.Holds offset bytes :=
  List.IsPrefix.trans holds (List.IsPrefix.drop h.bytes offset)

theorem isShort_of_window {e : DecodingError} (h : source.window offset n = .error e) :
    e.isShort := by
  unfold window at h
  split at h
  next => cases h
  next =>
    cases h
    rfl

theorem isShort_of_windowFrom {e : DecodingError} (h : source.windowFrom offset = .error e) :
    e.isShort := by
  unfold windowFrom at h
  dsimp only at h
  split at h
  next => exact isShort_of_window h
  next =>
    cases h
    rfl

theorem isShort_of_number {width : Nat} {e : DecodingError}
    (h : source.number width offset = .error e) : e.isShort := by
  unfold number at h
  rcases Except.bind_eq_error.mp h with h | later
  · exact isShort_of_window h
  · obtain ⟨w, -, h⟩ := later
    exact (Window.tame_number width).short (Except.map_eq_error.mp h)

namespace Begins

theorem byte (h : source.Begins source') (offset : Nat) :
    Agrees Eq (source.byte offset) (source'.byte offset) := by
  refine .of_short (fun failed => isShort_of_number (Except.map_eq_error.mp failed)) fun run => ?_
  exact ⟨_, byte_eq_ok.mpr (h.holds (byte_eq_ok.mp run)), rfl⟩

theorem short (h : source.Begins source') (offset : Nat) :
    Agrees Eq (source.short offset) (source'.short offset) := by
  refine .of_short (fun failed => isShort_of_number (Except.map_eq_error.mp failed)) fun run => ?_
  exact ⟨_, short_eq_ok.mpr (h.holds (short_eq_ok.mp run)), rfl⟩

theorem word (h : source.Begins source') (offset : Nat) :
    Agrees Eq (source.word offset) (source'.word offset) := by
  refine .of_short (fun failed => isShort_of_number (Except.map_eq_error.mp failed)) fun run => ?_
  exact ⟨_, word_eq_ok.mpr (h.holds (word_eq_ok.mp run)), rfl⟩

theorem slice (h : source.Begins source') (offset n : Nat) :
    Agrees Eq (source.slice offset n) (source'.slice offset n) := by
  refine .of_short (fun failed => isShort_of_window (Except.map_eq_error.mp failed)) fun run => ?_
  obtain ⟨len, fits, holds⟩ := slice_eq_ok.mp run
  exact ⟨_, slice_eq_ok.mpr ⟨len, Nat.le_trans fits h.size_le, h.holds holds⟩, rfl⟩

/-- Both windows on the same range hold the same bytes. -/
theorem window (h : source.Begins source') (offset n : Nat) :
    Agrees Window.Twin (source.window offset n) (source'.window offset n) := by
  refine .of_short isShort_of_window fun run => ?_
  obtain ⟨len, fits, holds, place, start⟩ := window_eq_ok run
  have fits' := Nat.le_trans fits h.size_le
  rw [← len] at fits'
  obtain ⟨w', run', rest, place', start'⟩ := exists_window (h.holds holds) fits'
  rw [len] at run'
  exact ⟨w', run', place.trans place'.symm, start.trans start'.symm, rest.symm⟩

end Begins

end Source

end ClassFormat
