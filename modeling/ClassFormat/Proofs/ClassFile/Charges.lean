import ClassFormat.Proofs.Attribute.Trail
import ClassFormat.Proofs.ClassFile.Prefix
import ClassFormat.Proofs.ClassFile.Roots
import ClassFormat.Proofs.Constant.Answers

/-!
# Rows are paid for by bytes

Every row of an attribute pool is paid for by four bytes of the source that no
other row is paid for by, since the steps of a read stand in bytes of their own. So
the rows of a class file never use up the indexes, and none of them is refused.
-/
namespace ClassFormat

namespace Attribute

variable {named : Nat → String → Prop} {constants : Constant.Pool}

namespace Pool

variable {s t : Pool} {n : Nat}

/-- A step adds no more rows than its bytes pay for. -/
theorem Step.paid (step : Step named s n t) (sound : s.Sound) :
    t.Sound ∧ 4 * t.store.rowCount ≤ 4 * s.store.rowCount + n := by
  cases step with
  | table name =>
      obtain ⟨log, opened⟩ := exists_openTable name s
      obtain ⟨evolved, count⟩ := (openTable_adds name).effect sound opened
      rw [stateAfter_of_ok opened]
      exact ⟨evolved.sound sound, by omega⟩
  | @entry entry record _ _ _ fits planted =>
      obtain ⟨evolved, count⟩ := (Record.plant_adds fits).effect sound planted
      have bytes : 4 * [record].length ≤ ([record].flatMap Record.encode).length :=
        Record.four_mul_length_le (by simpa using fits)
      rw [List.flatMap_singleton, List.length_singleton] at bytes
      exact ⟨evolved.sound sound, by omega⟩
  | tree fits planted =>
      obtain ⟨evolved, count⟩ := (Tree.plant_adds _ fits).effect sound planted
      have bytes := Tree.four_mul_rows_le fits
      exact ⟨evolved.sound sound, by omega⟩

theorem Trail.paid (trail : Trail named s n t) (sound : s.Sound) :
    t.Sound ∧ 4 * t.store.rowCount ≤ 4 * s.store.rowCount + n := by
  induction trail with
  | stay => exact ⟨sound, Nat.le_add_right _ _⟩
  | step _ last bytes ih =>
      obtain ⟨reached, paid⟩ := ih
      obtain ⟨later, paid'⟩ := last.paid reached
      exact ⟨later, by omega⟩

theorem Stops.rowCount_eq {e : DecodingError} (stops : Stops constants e s t) (sound : s.Sound) :
    t.store.rowCount = s.store.rowCount := by
  cases stops with
  | elsewhere => rfl
  | refused opened len failed =>
      obtain ⟨_, failed⟩ := of_addRow_eq_error failed
      exact (sound.numbered.of_addRow_eq_error (sound.accepts opened len) failed).2

/-- No row is refused as long as there is an index for it. -/
theorem Stops.of_room {e : DecodingError} (stops : Stops constants e s t) (sound : s.Sound)
    (room : s.store.rowCount < 2 ^ 32) :
    t = s ∧ ∀ c, e = .table c → ∃ slot, constants.utf8 slot = .error c := by
  cases stops with
  | elsewhere _ cause => exact ⟨rfl, cause⟩
  | refused opened len failed =>
      obtain ⟨later, added⟩ := sound.exists_addRow opened len room
      rw [failed] at added
      cases added

end Pool

namespace Scan

variable {source : Source} {α : Type} {read : ScanReader α}

/-- The rows that a run adds, failed or not, are paid for by the bytes from its
offset to the end. -/
theorem Goes.paid (goes : Scan.Goes source constants read) (small : source.size < 2 ^ 32)
    {s : Scan} (sound : s.pool.Sound) :
    4 * (stateAfter read s).pool.store.rowCount ≤
      4 * s.pool.store.rowCount + (source.size - s.offset) := by
  rcases ClassFormat.Goes.stateAfter goes s with ⟨n, trail, bytes⟩ | ⟨e, r, ⟨n, trail, bytes⟩, stops⟩
  · have fewer := bytes small
    have paid := (trail.paid sound).2
    omega
  · have fewer := bytes small
    obtain ⟨reached, paid⟩ := trail.paid sound
    have same := stops.rowCount_eq reached
    omega

theorem Goes.paid_new (goes : Scan.Goes source constants read) (small : source.size < 2 ^ 32)
    (offset : Nat) :
    4 * (stateAfter read ⟨{}, offset⟩).pool.store.rowCount ≤ source.size - offset := by
  have paid := goes.paid small (s := ⟨{}, offset⟩) Pool.sound_empty
  have charged : _ ≤ 4 * 0 + (source.size - offset) := paid
  rwa [Nat.mul_zero, Nat.zero_add] at charged

/-- What a run on a new pool has reached before it stops has indexes left. -/
theorem Moves.room {offset : Nat} {r : Scan} (moves : Moves source named ⟨{}, offset⟩ r)
    (small : source.size < 2 ^ 32) : r.pool.Sound ∧ r.pool.store.rowCount < 2 ^ 32 := by
  obtain ⟨n, trail, bytes⟩ := moves
  have fewer : n + (source.size - r.offset) ≤ source.size - offset := bytes small
  obtain ⟨sound, paid⟩ := trail.paid Pool.sound_empty
  have charged : 4 * r.pool.store.rowCount ≤ 0 + n := paid
  exact ⟨sound, by omega⟩

/-- A run on a new pool is refused no row. -/
theorem Goes.unrefused (goes : Scan.Goes source constants read) (small : source.size < 2 ^ 32)
    {offset : Nat} {e : DecodingError} {t : Scan} (failed : read ⟨{}, offset⟩ = .error e t) :
    ∀ c, e = .table c → ∃ slot, constants.utf8 slot = .error c := by
  obtain ⟨r, moves, stops⟩ := goes.error failed
  obtain ⟨sound, room⟩ := moves.room small
  exact (Pool.Stops.of_room stops sound room).2

/-- A run on a new pool leaves as many rows as indexes were used up. -/
theorem Goes.minted_eq (goes : Scan.Goes source constants read) (small : source.size < 2 ^ 32)
    (offset : Nat) :
    (stateAfter read ⟨{}, offset⟩).pool.store.minted =
      (stateAfter read ⟨{}, offset⟩).pool.store.rowCount := by
  rcases ClassFormat.Goes.stateAfter goes ⟨{}, offset⟩ with moves | ⟨e, r, moves, stops⟩
  · obtain ⟨sound, room⟩ := moves.room small
    exact sound.numbered.next room
  · obtain ⟨sound, room⟩ := moves.room small
    rw [(Pool.Stops.of_room stops sound room).1]
    exact sound.numbered.next room

theorem goes_record {read : WindowReader α} (tame : Window.Tame read) :
    Scan.Goes source constants (ClassFile.Decode.record .plain source read) := by
  rw [ClassFile.record_eq]
  exact .bind evolution_moves goes_currentOffset fun _ =>
    .bind evolution_moves (goes_lift Source.isShort_of_windowFrom) fun _ =>
      .bind evolution_moves (goes_lift tame.short) fun _ =>
        .bind evolution_moves (goes_advance _) fun _ => .pure evolution_moves _

theorem goes_readCount : Scan.Goes source constants (ClassFile.readCount source) := by
  refine .bind evolution_moves goes_currentOffset fun offset => ?_
  refine .bind evolution_moves (goes_lift fun failed => ?_) fun _ => ?_
  · obtain ⟨-, rfl⟩ := Source.short_eq_error.mp failed
    rfl
  · exact .bind evolution_moves (goes_advance 2) fun _ => .pure evolution_moves _

theorem goes_readMember (place : FlagPlace) :
    Scan.Goes source constants (ClassFile.readMember source constants place) := by
  rw [ClassFile.readMember_eq]
  exact .bind evolution_moves goes_currentOffset fun _ =>
    .bind evolution_moves (goes_record ClassFile.tame_memberHeader) fun header =>
      .bind evolution_moves (goes_readAttributes source constants header.attributeCount.toNat)
        fun _ => .bind evolution_moves goes_currentOffset fun _ => .pure evolution_moves _

theorem goes_readBody (source : Source) (constants : Constant.Pool) :
    Scan.Goes source constants (ClassFile.readBody source constants) := by
  have members (place : FlagPlace) (count : Nat) :
      Scan.Goes source constants (collect count (ClassFile.readMember source constants place)) :=
    .collect evolution_moves (goes_readMember place) count
  refine .bind evolution_moves (goes_record ClassFile.tame_info) fun info => ?_
  refine .bind evolution_moves goes_readCount fun fieldCount => ?_
  refine .bind evolution_moves (members .field fieldCount) fun fields => ?_
  refine .bind evolution_moves goes_readCount fun methodCount => ?_
  refine .bind evolution_moves (members .method methodCount) fun methods => ?_
  refine .bind evolution_moves goes_readCount fun count => ?_
  exact .bind evolution_moves (goes_readAttributes source constants count) fun _ =>
    .pure evolution_moves _

end Scan

end Attribute

namespace Constant.Pool

/-- A slot without a string is the only thing that can be wrong with a name. -/
theorem of_utf8_eq_error {source : Source} {count start : Nat} {pool : Pool}
    (ok : (read source count start).result = .ok pool) {slot : Nat} {e : TableError}
    (failed : pool.utf8 slot = .error e) : e = .rowNotInTable slot Tag.utf8.name := by
  have slotted := slotted_of_read ok
  have present : pool.store.containsTable .utf8 := by
    rw [Store.containsTable_iff, slotted.tables]
    decide
  rcases Except.bind_eq_error.mp failed with failed | ⟨row, found, failed⟩
  · exact Store.of_entry_eq_error present failed
  · obtain ⟨here, table⟩ := (slotted.entry .utf8 slot row).mp found
    have kinded : KindedRow row := of_get ok (lists_of_read ok) here
    have shape : row.shape? 0 = some .text := by
      rw [kinded.shape?_eq, table]
      rfl
    obtain ⟨text, known⟩ := Row.exists_text shape
    rw [known] at failed
    cases failed

end Constant.Pool

namespace ClassFile

open Attribute

theorem four_mul_rowCount_le {source : Source} (small : source.size < 2 ^ 32) {c : ClassFile}
    (run : ofSource source = .ok c) : 4 * c.attributePool.store.rowCount ≤ source.size := by
  obtain ⟨parts, read, rfl⟩ := ofSource_eq_ok.mp run
  obtain ⟨-, -, body⟩ := readParts_eq_ok.mp read
  have paid := (Scan.goes_readBody source parts.constants).paid_new small
    (Constant.Pool.read source parts.header.constantCount.toNat Header.size).offset
  rw [stateAfter_of_ok body] at paid
  exact Nat.le_trans paid (Nat.sub_le _ _)

/-- Four times the rows that a list of attributes adds to a pool, read or not, are at
most the bytes from its offset to the end, and four times the rows of a class file
are at most its bytes. So a class file uses up as many indexes as it has rows, and
the only table error is that of an attribute name which is no string. -/
theorem rows_paid_for {source : Source} (small : source.size < 2 ^ 32) :
    (∀ (calls : List Call) (constants : Constant.Pool) (count offset : Nat),
      4 * (stateAfter (readAttributes source constants count)
          ⟨(Session.run calls).pool, offset⟩).pool.store.rowCount ≤
        4 * (Session.run calls).pool.store.rowCount + (source.size - offset)) ∧
    (∀ c, ofSource source = .ok c → 4 * c.attributePool.store.rowCount ≤ source.size) ∧
    ∀ (slots start : Nat) (constants : Constant.Pool) (offset : Nat),
      (Constant.Pool.read source slots start).result = .ok constants →
        4 * (stateAfter (readBody source constants) ⟨{}, offset⟩).pool.store.rowCount ≤
            source.size ∧
          (stateAfter (readBody source constants) ⟨{}, offset⟩).pool.store.minted =
            (stateAfter (readBody source constants) ⟨{}, offset⟩).pool.store.rowCount ∧
          ∀ cause t, readBody source constants ⟨{}, offset⟩ = .error (.table cause) t →
            ∃ slot, cause = .rowNotInTable slot Constant.Tag.utf8.name := by
  refine ⟨fun calls constants count offset => ?_, fun c run => four_mul_rowCount_le small run,
    fun slots start constants offset read => ?_⟩
  · exact (Scan.goes_readAttributes source constants count).paid small
      (Session.run_sound calls)
  · have goes := Scan.goes_readBody source constants
    refine ⟨Nat.le_trans (goes.paid_new small offset) (Nat.sub_le _ _),
      goes.minted_eq small offset, fun cause t failed => ?_⟩
    obtain ⟨slot, unknown⟩ := goes.unrefused small failed cause rfl
    exact ⟨slot, Constant.Pool.of_utf8_eq_error read unknown⟩

theorem rows_paid_for_sampleImage :
    Source.size ⟨sampleImage.encode.toArray⟩ < 2 ^ 32 ∧
      ∃ c, ofSource ⟨sampleImage.encode.toArray⟩ = .ok c ∧ c.attributePool.store.rowCount = 4 ∧
        4 * c.attributePool.store.rowCount ≤ Source.size ⟨sampleImage.encode.toArray⟩ := by
  have small : Source.size ⟨sampleImage.encode.toArray⟩ < 2 ^ 32 := by decide +kernel
  have rows : (do
      let c ← ofSource ⟨sampleImage.encode.toArray⟩
      return c.attributePool.store.rowCount : Except DecodingError Nat) = .ok 4 := by
    decide +kernel
  obtain ⟨c, run, two⟩ := Except.map_eq_ok.mp rows
  exact ⟨small, c, run, two, (rows_paid_for small).2.1 c run⟩

end ClassFile

end ClassFormat
