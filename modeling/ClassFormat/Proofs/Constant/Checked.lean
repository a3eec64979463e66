import ClassFormat.Proofs.Bytes.Checked
import ClassFormat.Proofs.Constant.Entries

/-!
# Checked reading of a constant pool

The pool is read with checked reads of the source, and the offset, the slots and
the lengths are summed up with checks. In a source of less than `2^32` bytes this
mirrors plain reading, from every offset inside.
-/
namespace ClassFormat.Constant.Pool

open Checked

/-- The outcome of reading a pool, unless there is a fault. -/
def Reading.settled? (reading : Reading Stop) : Option Reading :=
  (Checked.settled? reading.result).map fun result => ⟨result, reading.offset, reading.log⟩

def checkedRead (source : Source) (count offset : Nat) : Option Reading :=
  (Decode.read .checked source count offset).settled?

section

variable {source : Source} (small : source.size < 2 ^ 32)

include small

theorem mirrors_advance {s : Progress} {n : Nat} (inside : s.offset + n ≤ source.size) :
    (Scope.offsets source Progress.offset).MirrorsAt s id (Decode.advance .checked source n)
      (Decode.advance .plain source n) :=
  Source.mirrors_advance small (fun _ _ => rfl) inside

theorem valueAt_checked (column : Column Tag) (offset : Nat) :
    Decode.valueAt .checked source column offset = told id (valueAt source column offset) := by
  obtain ⟨table, index, name, type⟩ := column
  unfold valueAt Decode.valueAt
  cases type with
  | byte => exact told_bind (Source.checkedByte_eq small offset) fun n _ => rfl
  | uint16 => exact told_bind (Source.checkedShort_eq small offset) fun n _ => rfl
  | uint32 => exact told_bind (Source.checkedWord_eq small offset) fun n _ => rfl
  | utf8String =>
      refine told_bind (Source.checkedShort_eq small offset) fun length first => ?_
      -- The length was read, so what follows it starts inside the source.
      have behind : offset + 2 ≤ source.size := by
        have inside := (Source.short_eq_ok.mp first).fits (.inr (by simp [BigEndian.digits]))
        rwa [BigEndian.length_digits] at inside
      have start : offset + 2 < 2 ^ 32 := Nat.lt_of_le_of_lt behind small
      have size : 2 + length.toNat < 2 ^ 32 := by
        have := length.toNat_lt
        omega
      have next : add offset 2 = told id (.ok (saturate (offset + 2))) := by
        rw [add_eq start, saturate_of_lt start]
        rfl
      refine told_bind next fun place _ => ?_
      refine told_bind (Source.checkedSlice_eq place length.toNat) fun bytes _ => ?_
      dsimp only [id]
      cases ModifiedUtf8.decode bytes with
      | none => rfl
      | some s => exact told_bind (f := id) (add_eq size) fun _ _ => rfl
  | _ => rfl

theorem inside_of_valueAt {column : Column Tag} {offset raw size : Nat} {value : Value Tag}
    (read : valueAt source column offset = .ok (raw, value, size)) :
    offset + size ≤ source.size := by
  obtain ⟨bytes, written, holds⟩ := (valueAt_eq_ok small).mp read
  have length : bytes.length = size := written.length_eq
  rw [← length]
  exact holds.fits (.inr written.ne_nil)

omit small in
theorem mirrors_currentOffset (source : Source) :
    (Scope.offsets source Progress.offset).Mirrors id (plainly Reader.currentOffset)
      Reader.currentOffset :=
  Scope.mirrors_still fun _ => rfl

omit small in
theorem offset_table (tag : Tag) (s : Progress) :
    (stateAfter (Reader.table tag) s).offset = s.offset := by
  unfold stateAfter Reader.table
  cases s.store.table tag <;> rfl

omit small in
theorem offset_onStore {α : Type} (act : EStateM TableError (Store Tag) α) (s : Progress) :
    (stateAfter (Reader.onStore act) s).offset = s.offset := by
  obtain ⟨offset, store, log⟩ := s
  cases run : act store with
  | ok a store' => simp [stateAfter, Reader.onStore, run]
  | error e store' => simp [stateAfter, Reader.onStore, run]

theorem mirrors_cell (column : Column Tag) :
    (Scope.offsets source Progress.offset).Mirrors id (Decode.cell .checked source column)
      (readCell source column) := by
  intro s fine
  refine (mirrors_currentOffset source s fine).bind fun offset t run _ => ?_
  obtain ⟨rfl, rfl⟩ := Reader.currentOffset_eq_ok.mp run
  refine (Scope.MirrorsAt.answer (valueAt_checked small column _)).bind fun result t run _ => ?_
  obtain ⟨raw, value, size⟩ := result
  obtain ⟨read, rfl⟩ := ofExcept_eq_ok.mp run
  refine (mirrors_advance small (inside_of_valueAt small read)).bind fun _ r _ moves => ?_
  exact Scope.mirrors_check _ r (Scope.keeps _ fine moves)

theorem mirrors_row (slot : Nat) (tag : Tag) :
    (Scope.offsets source Progress.offset).Mirrors id (Decode.row .checked source slot tag)
      (readRow source slot tag) := by
  have table : (Scope.offsets source Progress.offset).Mirrors id (plainly (Reader.table tag))
      (Reader.table tag) := Scope.mirrors_still (offset_table tag)
  refine .bind table fun table => ?_
  refine .bind (.mapM (mirrors_cell small) table.columns) fun cells => ?_
  refine .bind (Scope.mirrors_check _) fun row => ?_
  dsimp only [id]
  refine .bind (Scope.mirrors_still fun _ => rfl) fun _ => ?_
  exact Scope.mirrors_still (offset_onStore _)

theorem mirrors_entry (slot : Nat) :
    (Scope.offsets source Progress.offset).Mirrors id (Decode.entry .checked source slot)
      (readEntry source slot) := by
  intro s fine
  refine (mirrors_currentOffset source s fine).bind fun offset t run _ => ?_
  obtain ⟨rfl, rfl⟩ := Reader.currentOffset_eq_ok.mp run
  refine (Scope.MirrorsAt.answer (Source.checkedByte_eq small _)).bind fun code t run _ => ?_
  obtain ⟨read, rfl⟩ := ofExcept_eq_ok.mp run
  have inside : s.offset + 1 ≤ source.size :=
    (Source.byte_eq_ok.mp read).fits (.inr (List.cons_ne_nil _ _))
  dsimp only [id]
  cases Tag.ofCode? code with
  | none => exact .throw _
  | some tag =>
      refine (mirrors_advance small inside).bind fun _ r _ moves => ?_
      have row := mirrors_row small slot tag r (Scope.keeps _ fine moves)
      exact row.bind fun _ _ _ _ => .pure

/-- The slots are numbers of two bytes, so that the next slot fits in four. -/
theorem mirrors_entries {count : Nat} (few : count < 2 ^ 16) {left slot : Nat}
    (slots : 0 < left → slot + left = count) :
    (Scope.offsets source Progress.offset).Mirrors id (Decode.entries .checked source slot left)
      (readEntries source slot left) := by
  induction left using Nat.strongRecOn generalizing slot with
  | ind left ih =>
      have next (tag : Tag) (some : 0 < left) :
          add slot tag.width = told id (.ok (slot + tag.width)) := by
        have := slots some
        have : tag.width ≤ 2 := by
          unfold Tag.width
          split <;> decide
        exact add_eq (by omega)
      match left with
      | 0 => exact .pure
      | 1 =>
          refine .bind (mirrors_entry small slot) fun tag => ?_
          exact .bind (fun _ _ => .answer (next tag Nat.one_pos)) fun _ => .pure
      | left + 2 =>
          have total := slots (Nat.succ_pos _)
          refine .bind (mirrors_entry small slot) fun tag => ?_
          intro s fine
          refine (Scope.MirrorsAt.answer (next tag (Nat.succ_pos _))).bind fun slot' t run moves => ?_
          obtain ⟨same, rfl⟩ := ofExcept_eq_ok.mp run
          cases same
          dsimp only [id]
          unfold Tag.width
          split
          next => exact ih left (by omega) (by omega) s fine
          next => exact ih (left + 1) (by omega) (by omega) s fine

/-- The offset only moves on, so that the number of bytes is none below zero. -/
theorem mirrors_pool {count : Nat} (few : count < 2 ^ 16) :
    (Scope.offsets source Progress.offset).Mirrors id (Decode.pool .checked source count)
      (readPool source count) := by
  have entries : (Scope.offsets source Progress.offset).Mirrors id
      (Decode.entries .checked source 1 (count - 1)) (readEntries source 1 (count - 1)) :=
    mirrors_entries small few (by omega)
  refine .bind (Scope.mirrors_still (offset_onStore _)) fun _ s fine => ?_
  refine (mirrors_currentOffset source s fine).bind fun start t run _ => ?_
  obtain ⟨rfl, rfl⟩ := Reader.currentOffset_eq_ok.mp run
  have noted : (Scope.offsets source Progress.offset).Mirrors id
      (plainly (Reader.note (.constantsBegun s.offset (count - 1))))
      (Reader.note (.constantsBegun s.offset (count - 1))) := Scope.mirrors_still fun _ => rfl
  refine (noted s fine).bind fun _ r run moves => ?_
  obtain rfl := Reader.note_eq_ok.mp run
  have fine := Scope.keeps _ fine moves
  refine (entries _ fine).bind fun _ t _ moves => ?_
  refine (mirrors_currentOffset source t (Scope.keeps _ fine moves)).bind fun stop u run _ => ?_
  obtain ⟨rfl, rfl⟩ := Reader.currentOffset_eq_ok.mp run
  exact .answer (sub_eq moves.1)

theorem read_checked {count offset : Nat} (few : count < 2 ^ 16) (inside : offset ≤ source.size) :
    Decode.read .checked source count offset =
      ⟨told id (read source count offset).result, (read source count offset).offset,
        (read source count offset).log⟩ := by
  obtain ⟨same, -⟩ := (mirrors_pool small few).inside (s := ⟨offset, {}, #[]⟩) inside
  unfold read Decode.read
  rw [same]
  unfold readPool
  cases Decode.pool .plain source count ⟨offset, {}, #[]⟩ <;> rfl

/-- Reading a pool makes no fault, and the offset moves on inside the source. -/
theorem checkedRead_eq {count offset : Nat} (few : count < 2 ^ 16) (inside : offset ≤ source.size) :
    checkedRead source count offset = some (read source count offset) ∧
      offset ≤ (read source count offset).offset ∧
      (read source count offset).offset ≤ source.size := by
  obtain ⟨-, order, stop⟩ := (mirrors_pool small few).inside (s := ⟨offset, {}, #[]⟩) inside
  constructor
  · rw [checkedRead, read_checked small few inside]
    obtain ⟨result, offset, log⟩ := read source count offset
    cases result <;> rfl
  · unfold readPool stateAfter at order stop
    unfold read Decode.read
    cases run : Decode.pool .plain source count ⟨offset, {}, #[]⟩ with
    | ok length s =>
        rw [run] at order stop
        exact ⟨order, stop⟩
    | error e s =>
        rw [run] at order stop
        exact ⟨order, stop⟩

end

end ClassFormat.Constant.Pool
