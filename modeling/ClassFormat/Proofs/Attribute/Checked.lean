import ClassFormat.Proofs.Attribute.Scan
import ClassFormat.Proofs.Attribute.Simulation
import ClassFormat.Proofs.Bytes.Checked

/-!
# Checked reading of attributes

Payloads are read through cursors instead of windows, so that every position and
every range is checked, and the lengths of cells and the offset in the source are
computed with checks. In a source of less than `2^32` bytes this mirrors plain
reading, from every offset inside and into every pool.
-/
namespace ClassFormat.Attribute

open Checked PayloadReader

abbrev checkedSteps : Steps Stop Cursor (Payload Cursor) Pool Scan := .reading .checked

def checkedAttributes (source : Source) (constants : Constant.Pool) :
    Nat → EStateM Stop Scan (List (Reference String)) :=
  checkedSteps.readAttributes source constants maxNesting

/-- Payloads in windows whose offsets are numbers of four bytes, which are read
from front to back. -/
def payloads : Scope Payload (Payload Cursor) where
  bare s := ⟨s.pool, s.window.bare⟩
  fine s := s.window.Placed
  moves s t := ∃ bytes, s.window.Consumes bytes t.window
  refl _ := ⟨[], Window.Consumes.nil_iff.mpr rfl⟩
  trans h k := ⟨_, h.choose_spec.append k.choose_spec⟩
  keeps fine moves := moves.choose_spec.placed fine

section Payloads

variable {α β : Type} {f : α → β} {s : Payload}

theorem mirrors_onWindow {x : CursorReader β} {y : WindowReader α} (h : Cursor.Mirrors f x y) :
    payloads.Mirrors f (onWindow x) (onWindow y) := by
  intro s placed
  have same := h.same s.window placed
  obtain ⟨pool, window⟩ := s
  cases run : y window with
  | ok r =>
      obtain ⟨a, window'⟩ := r
      dsimp only at same
      rw [run] at same
      constructor
      · simp [onWindow, payloads, same, run, told, toldIn]
      · simpa [stateAfter, onWindow, payloads, run] using h.consumes run
  | error e =>
      dsimp only at same
      rw [run] at same
      constructor
      · simp [onWindow, payloads, same, run, told, toldIn]
      · simpa [stateAfter, onWindow, payloads, run] using payloads.refl ⟨pool, window⟩

theorem mirrors_onPool {x : EStateM Stop Pool α} {y : EStateM DecodingError Pool α}
    (h : Scope.free.Mirrors id x y) : payloads.Mirrors id (onPool x) (onPool y) := by
  intro s _
  obtain ⟨pool, window⟩ := s
  have same : x pool = toldIn id id (y pool) := (h pool trivial).same
  cases run : y pool with
  | ok a pool' =>
      rw [run] at same
      constructor
      · simp [onPool, payloads, same, run, toldIn]
      · simpa [stateAfter, onPool, payloads, run] using payloads.refl ⟨pool, window⟩
  | error e pool' =>
      rw [run] at same
      constructor
      · simp [onPool, payloads, same, run, toldIn]
      · simpa [stateAfter, onPool, payloads, run] using payloads.refl ⟨pool, window⟩

theorem mirrors_tell : payloads.Mirrors id (ask Cursor.tell) position := by
  intro s placed
  refine ⟨?_, payloads.refl s⟩
  change ofExcept s.window.bare.tell (payloads.bare s) = _
  rw [Window.tell_bare placed]
  rfl

theorem mirrors_offset :
    payloads.Mirrors id (ask Cursor.offset) (ask Reads.plain.offset : PayloadReader Nat) := by
  intro s placed
  refine ⟨?_, payloads.refl s⟩
  change ofExcept s.window.bare.offset (payloads.bare s) = _
  rw [Window.offset_bare placed]
  rfl

theorem mirrors_header : Cursor.Mirrors id (Header.decode .checked) Header.read :=
  .fields (.bind Cursor.mirrors_short fun _ => .bind Cursor.mirrors_word fun _ => .pure)

/-- The bytes that are left in a payload can be counted in four bytes. -/
theorem mirrors_raw :
    payloads.Mirrors id
      (do
        let bytes ← onWindow Cursor.takeRest
        return (← ofExcept (fit bytes.length), .bytes bytes))
      (do
        let bytes ← onWindow Window.takeRest
        return (bytes.length, (.bytes bytes : Value String))) := by
  intro s placed
  refine (mirrors_onWindow Cursor.mirrors_takeRest s placed).bind fun bytes t run _ => ?_
  obtain ⟨consumes, -⟩ := Window.takeRest_eq_ok.mp (PayloadReader.onWindow_eq_ok.mp run).1
  have few : bytes.length < 2 ^ 32 := by
    have := consumes.fits
    have := s.window.start_le_cursor
    change s.window.base + (s.window.stop - s.window.start) < 2 ^ 32 at placed
    omega
  exact .check (fit_eq few) .pure

/-- A payload is read from front to back, so that no cell has a negative length. -/
theorem mirrors_sized {x : EStateM Stop (Payload Cursor) (Nat × Value String)}
    {y : PayloadReader (Nat × Value String)} (h : payloads.Mirrors id x y)
    (column : Column String) :
    payloads.Mirrors id (checkedSteps.readSized column x) (readSized column y) := by
  intro s placed
  refine (mirrors_tell s placed).bind fun start t run _ => ?_
  obtain ⟨rfl, rfl⟩ := PayloadReader.position_eq_ok.mp run
  refine (h s placed).bind fun result t _ moves => ?_
  obtain ⟨bytes, consumes⟩ := moves
  refine (mirrors_tell t (consumes.placed placed)).bind fun stop u run _ => ?_
  obtain ⟨rfl, rfl⟩ := PayloadReader.position_eq_ok.mp run
  have order : s.window.position ≤ t.window.position := by
    rw [consumes.position_eq]
    exact Nat.le_add_right _ _
  exact .check (sub_eq order) (Scope.mirrors_check _ t (consumes.placed placed))

theorem mirrors_record {x : Column String → EStateM Stop (Payload Cursor) (Cell String)}
    {y : Column String → PayloadReader (Cell String)}
    (h : ∀ column, payloads.Mirrors id (x column) (y column)) (name : String) :
    payloads.Mirrors id (checkedSteps.readRecord x name) (readRecord y name) := by
  refine .bind (mirrors_onPool (Scope.mirrors_free _)) fun _ => ?_
  refine .bind (.mapM h _) fun cells => .bind (Scope.mirrors_check _) fun row => ?_
  exact mirrors_onPool (Scope.mirrors_free _)

theorem simulates_checked : checkedSteps.Simulates fun _ => payloads.Mirrors id where
  toCompositional := Scope.Mirrors.compositional
  failure := .throw
  number width := mirrors_onWindow (Cursor.mirrors_number width)
  byte := mirrors_onWindow Cursor.mirrors_byte
  short := mirrors_onWindow Cursor.mirrors_short
  word := mirrors_onWindow Cursor.mirrors_word
  take n := mirrors_onWindow (Cursor.mirrors_take n)
  rest := mirrors_raw
  sized := mirrors_sized
  record := mirrors_record

theorem mirrors_onPayload {w : Window} (placed : w.Placed)
    {x : EStateM Stop (Payload Cursor) α} {y : PayloadReader α} (h : payloads.Mirrors id x y) :
    Scope.free.Mirrors (fun r => (r.1, r.2.bare)) (Pool.onPayload w.bare x)
      (Pool.onPayload w y) := by
  intro pool _
  have same : x ⟨pool, w.bare⟩ = toldIn id payloads.bare (y ⟨pool, w⟩) := (h ⟨pool, w⟩ placed).same
  refine ⟨?_, trivial⟩
  change Pool.onPayload w.bare x pool = _
  cases run : y ⟨pool, w⟩ with
  | ok a s =>
      rw [run] at same
      simp [Pool.onPayload, Scope.free, payloads, same, run, toldIn]
  | error e s =>
      rw [run] at same
      simp [Pool.onPayload, Scope.free, payloads, same, run, toldIn]

section Lists

variable {x : Nat → EStateM Stop (Payload Cursor) (List (Reference String))}
  {y : Nat → PayloadReader (List (Reference String))}
  (lists : ∀ count, payloads.Mirrors id (x count) (y count))

include lists

/-- A payload is read on its own, in any pool. -/
theorem mirrors_payload {w : Window} (placed : w.Placed) (constants : Constant.Pool)
    (header : Header) :
    Scope.free.Mirrors id (checkedSteps.readPayload constants x header w.bare)
      (readPayload constants y header w) := by
  intro pool _
  unfold readPayload Steps.readPayload
  cases constants.utf8 header.nameIndex.toNat with
  | error e => exact .throw _
  | ok name =>
      have record := mirrors_record (simulates_checked.cell lists) name
      refine (mirrors_onPayload placed record pool trivial).bind fun result pool' run _ => ?_
      obtain ⟨reference, w'⟩ := result
      have moves := (record ⟨pool, w⟩ placed).moves
      rw [stateAfter_of_ok (onPayload_eq_ok.mp run)] at moves
      obtain ⟨bytes, consumes⟩ := moves
      have behind := consumes.placed placed
      have left : w'.bare.remaining = told id (.ok w'.remaining) := Window.remaining_bare behind
      have place : w'.bare.offset = told id (.ok w'.offset) := Window.offset_bare behind
      refine (Scope.MirrorsAt.answer left).bind fun n t run _ => ?_
      dsimp only [id]
      split
      next =>
        refine (Scope.MirrorsAt.answer place).bind fun offset r _ _ => ?_
        exact (Scope.mirrors_free _ r trivial).bind fun _ _ _ _ => .pure
      next => exact .pure

theorem mirrors_nested (constants : Constant.Pool) :
    payloads.Mirrors id (checkedSteps.readNested constants x) (readNested constants y) := by
  intro s placed
  refine (mirrors_onWindow mirrors_header s placed).bind fun header t _ moves => ?_
  have placed := payloads.keeps placed moves
  refine (mirrors_onWindow (Cursor.mirrors_split _) t placed).bind fun window u run moves => ?_
  have inner := Window.placed_of_split (PayloadReader.onWindow_eq_ok.mp run).1 placed
  exact mirrors_onPool (mirrors_payload lists inner constants header) u
    (payloads.keeps placed moves)

end Lists

theorem mirrors_list (constants : Constant.Pool) (levels count : Nat) :
    payloads.Mirrors id (checkedSteps.nestedList constants levels count)
      (nestedList constants levels count) := by
  induction levels generalizing count with
  | zero => exact .bind mirrors_offset fun start => .throw _
  | succ levels ih => exact .collect (mirrors_nested ih constants) count

end Payloads

section Sources

variable {source : Source}

theorem mirrors_currentOffset (source : Source) :
    (Scope.offsets source Scan.offset).Mirrors id ScanReader.currentOffset
      ScanReader.currentOffset :=
  Scope.mirrors_still (y := ScanReader.currentOffset) fun _ => rfl

theorem mirrors_scanOnPool {α : Type} {x : EStateM Stop Pool α} {y : EStateM DecodingError Pool α}
    (h : Scope.free.Mirrors id x y) :
    (Scope.offsets source Scan.offset).Mirrors id (ScanReader.onPool x)
      (ScanReader.onPool y) := by
  intro s _
  obtain ⟨pool, offset⟩ := s
  have same : x pool = toldIn id id (y pool) := (h pool trivial).same
  have still (pool' : Pool) :
      (Scope.offsets source Scan.offset).moves ⟨pool, offset⟩ ⟨pool', offset⟩ :=
    ⟨Nat.le_refl _, id⟩
  cases run : y pool with
  | ok a pool' =>
      rw [run] at same
      constructor
      · simp [ScanReader.onPool, Scope.offsets, same, run, toldIn]
      · simpa [stateAfter, ScanReader.onPool, run] using still pool'
  | error e pool' =>
      rw [run] at same
      constructor
      · simp [ScanReader.onPool, Scope.offsets, same, run, toldIn]
      · simpa [stateAfter, ScanReader.onPool, run] using still pool'

variable (small : source.size < 2 ^ 32)

include small

theorem mirrors_advance {s : Scan} {n : Nat} (inside : s.offset + n ≤ source.size) :
    (Scope.offsets source Scan.offset).MirrorsAt s id (ScanReader.advance .checked source n)
      (ScanReader.advance .plain source n) :=
  Source.mirrors_advance small (fun _ _ => rfl) inside

/-- A range of the source is opened at the offset, which then moves behind it. -/
theorem mirrors_attribute (constants : Constant.Pool) :
    (Scope.offsets source Scan.offset).Mirrors id
      (checkedSteps.readAttribute source constants maxNesting) (readAttribute source constants) := by
  intro s fine
  refine (mirrors_currentOffset source s fine).bind fun offset t run _ => ?_
  obtain ⟨rfl, rfl⟩ := ScanReader.currentOffset_eq_ok.mp run
  refine (Scope.MirrorsAt.answer (Source.cursor_eq source _ _)).bind fun window t run _ => ?_
  obtain ⟨opened, rfl⟩ := ofExcept_eq_ok.mp run
  have inside : s.offset + Header.size ≤ source.size := (Source.window_eq_ok opened).2.1
  have placed := Source.placed_of_window small opened
  refine (Scope.MirrorsAt.answer (mirrors_header.same window placed)).bind fun result t run _ => ?_
  obtain ⟨read, rfl⟩ := ofExcept_eq_ok.mp run
  obtain ⟨header, window'⟩ := result
  refine (mirrors_advance small inside).bind fun _ t _ moves => ?_
  have fine := Scope.keeps _ fine moves
  refine (mirrors_currentOffset source t fine).bind fun offset u run _ => ?_
  obtain ⟨rfl, rfl⟩ := ScanReader.currentOffset_eq_ok.mp run
  refine (Scope.MirrorsAt.answer (Source.cursor_eq source _ _)).bind fun payload u run _ => ?_
  obtain ⟨opened, rfl⟩ := ofExcept_eq_ok.mp run
  have inside : t.offset + header.length.toNat ≤ source.size := (Source.window_eq_ok opened).2.1
  have placed := Source.placed_of_window small opened
  refine (mirrors_advance small inside).bind fun _ u _ moves => ?_
  exact mirrors_scanOnPool (mirrors_payload (mirrors_list constants _) placed constants header) u
    (Scope.keeps _ fine moves)

theorem mirrors_attributes (constants : Constant.Pool) (count : Nat) :
    (Scope.offsets source Scan.offset).Mirrors id (checkedAttributes source constants count)
      (readAttributes source constants count) :=
  .collect (mirrors_attribute small constants) count

end Sources

end ClassFormat.Attribute
