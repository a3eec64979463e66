import ClassFormat.Proofs.Constant.Answers
import ClassFormat.Proofs.Table.Measure

/-!
# Measures of constants

The raw number and the size of a cell of a constant follow from its value, and
those of a string from the bytes that it was read off.
-/
namespace ClassFormat.Constant.Pool

variable {source : Source} {count start : Nat} {pool : Pool}

/-- The bytes stand somewhere in the source. -/
def Encoded (source : Source) (bytes : List UInt8) : Prop :=
  ∃ offset, source.slice offset bytes.length = .ok bytes

theorem measured_of_valueAt {resolve : Reference Tag → Except TableError (Row Tag)}
    {unread : Row Tag → Nat} {column : Column Tag} {offset raw size : Nat} {value : Value Tag}
    (read : valueAt source column offset = .ok (raw, value, size)) :
    Cell.Measured (Encoded source) resolve unread ⟨column, raw, size, value⟩ := by
  unfold valueAt Decode.valueAt at read
  split at read
  next type =>
    obtain ⟨n, -, same⟩ := Except.map_eq_ok.mp read
    cases same
    exact .byte n type
  next type =>
    obtain ⟨n, -, same⟩ := Except.map_eq_ok.mp read
    cases same
    exact .short n type
  next type =>
    obtain ⟨n, -, same⟩ := Except.map_eq_ok.mp read
    cases same
    exact .word n type
  next type =>
    obtain ⟨length, -, read⟩ := Except.bind_eq_ok.mp read
    obtain ⟨start, -, read⟩ := Except.bind_eq_ok.mp read
    obtain ⟨bytes, found, read⟩ := Except.bind_eq_ok.mp read
    obtain ⟨len, -, -⟩ := Source.slice_eq_ok.mp found
    rw [← len] at found read
    split at read
    next decoded =>
      cases read
      exact .text type ⟨_, found⟩ decoded
    next => cases read
  next => cases read

theorem measured_of_readCell (resolve : Reference Tag → Except TableError (Row Tag))
    (unread : Row Tag → Nat) {column : Column Tag} {s t : Progress} {cell : Cell Tag}
    (run : readCell source column s = .ok cell t) :
    cell.column = column ∧ cell.Measured (Encoded source) resolve unread := by
  rw [readCell_eq] at run
  obtain ⟨_, _, -, run⟩ := bind_eq_ok.mp run
  obtain ⟨_, _, read, run⟩ := bind_eq_ok.mp run
  obtain ⟨_, _, -, run⟩ := bind_eq_ok.mp run
  obtain ⟨rfl, -⟩ := pure_eq_ok.mp run
  obtain ⟨_, found, same⟩ := Except.bind_eq_ok.mp (ofExcept_eq_ok.mp read).1
  cases same
  exact ⟨rfl, measured_of_valueAt found⟩

/-- The tables of a pool that was read have the columns of their kinds. -/
theorem shaped_of_read (ok : (read source count start).result = .ok pool) :
    ∀ table ∈ pool.store.tables, table.columns = table.tag.columns := by
  obtain ⟨t, run, -, rfl⟩ := exists_run_of_read ok
  refine kept_of_readEntries
    (P := fun store => ∀ table ∈ store.tables, table.columns = table.tag.columns)
    (fun _ added shaped => ?_) stocked_emptyStore run stocked_emptyStore.shaped
  obtain ⟨-, position, -, -, -, rfl⟩ := Store.addRowAt_eq_ok.mp added
  exact Store.columns_withRow shaped position _ _

/-- The cells of a pool that was read have the measures of their values. -/
theorem measured_of_read (ok : (read source count start).result = .ok pool) :
    pool.store.Measured (Encoded source) fun _ => 0 := by
  have slotted := slotted_of_read ok
  have cells {slot : Nat} {row : Row Tag} (found : pool.store.row slot = .ok row) :=
    of_get ok (forall₂_of_read (measured_of_readCell pool.store.resolve fun _ => 0) ok) found
  constructor
  case columns =>
    intro slot row found
    have present : pool.store.containsTable row.table := by
      rw [Store.containsTable_iff, slotted.tables]
      cases row.table <;> decide
    obtain ⟨table, here⟩ := Store.exists_table? present
    obtain ⟨member, same⟩ := Store.table_of_table? here
    refine ⟨table, here, ?_⟩
    rw [shaped_of_read ok table member, same]
    exact (Cell.of_forall₂ (cells found)).1
  case cells => exact fun slot row found => (Cell.of_forall₂ (cells found)).2

end ClassFormat.Constant.Pool
