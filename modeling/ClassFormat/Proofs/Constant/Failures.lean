import ClassFormat.Proofs.Constant.Rows
import ClassFormat.Proofs.Constant.Slots
import ClassFormat.Proofs.Table.Registration

/-!
# Where reading a constant pool fails

Entries are read until one is missing or malformed. The offset has then moved over
the complete entries, and over the tag and the cells of the last one that stand in
front of the one that is at fault. Nothing else fails: there is a table for every
kind of constant, and the slots ascend, so that a row that was read is registered.
-/
namespace ClassFormat.Constant

open BigEndian

/-- How many bytes of a cell are read at first, which are all but for a string. -/
def frontSize : ColumnType → Nat
  | .byte => 1
  | .uint16 | .utf8String => 2
  | .uint32 => 4
  | .byteArray | .shortArray | .raw | .attributes | .entries _ => 0

/-- Why the cell at an offset cannot be read. -/
inductive CellStops (source : Source) (column : Column Tag) (offset : Nat) : DecodingError → Prop
  | front (missing : source.size < offset + frontSize column.type) :
    CellStops source column offset (.outOfBounds offset (frontSize column.type) source.size)
  | payload {length : UInt16} (string : column.type = .utf8String)
      (front : source.Holds offset (digits 2 length.toNat))
      (missing : source.size < offset + 2 + length.toNat) :
    CellStops source column offset (.outOfBounds (offset + 2) length.toNat source.size)
  | text {bytes : List UInt8} (string : column.type = .utf8String)
      (whole : source.Holds offset (digits 2 bytes.length ++ bytes))
      (malformed : ModifiedUtf8.decode bytes = none) :
    CellStops source column offset (.invalidModifiedUtf8 (offset + 2))

/-- The columns of constants are numbers and strings. -/
theorem Tag.columns_plain (tag : Tag) : ∀ column ∈ tag.columns,
    column.type = .byte ∨ column.type = .uint16 ∨ column.type = .uint32 ∨
      column.type = .utf8String := by
  cases tag <;> decide

section Cells

variable {source : Source} {column : Column Tag} {e : DecodingError}

theorem CellStops.of_missing {offset n : Nat} (front : frontSize column.type = n)
    (missing : source.size < offset + n) :
    CellStops source column offset (.outOfBounds offset n source.size) := by
  subst front
  exact .front missing

theorem CellStops.of_text (small : source.size < 2 ^ 32) {offset : Nat}
    (type : column.type = .utf8String) (failed : Pool.valueAt source column offset = .error e) :
    CellStops source column offset e := by
  rw [Pool.valueAt, Pool.Decode.valueAt, type] at failed
  rcases Except.bind_eq_error.mp failed with failed | ⟨length, first, failed⟩
  · obtain ⟨missing, rfl⟩ := Source.short_eq_error.mp failed
    exact .of_missing (by rw [type]; rfl) missing
  have holds := Source.short_eq_ok.mp first
  have inside := holds.fits (.inr (by simp [digits]))
  rw [length_digits] at inside
  have start : saturate (offset + 2) = offset + 2 := saturate_of_lt (by omega)
  rcases Except.bind_eq_error.mp failed with impossible | ⟨_, behind, failed⟩
  · cases impossible
  cases behind
  rw [start] at failed
  rcases Except.bind_eq_error.mp failed with failed | ⟨bytes, second, failed⟩
  · obtain ⟨missing, rfl⟩ := Source.slice_eq_error.mp failed
    exact .payload type holds missing
  · rw [← start] at second
    obtain ⟨-, whole⟩ := (readText_eq_ok small).mp ⟨first, second⟩
    cases decoded : ModifiedUtf8.decode bytes with
    | some s =>
        rw [decoded] at failed
        cases failed
    | none =>
        rw [decoded] at failed
        cases failed
        exact .text type whole decoded

theorem CellStops.of_valueAt (small : source.size < 2 ^ 32) {offset : Nat}
    (plain : column.type = .byte ∨ column.type = .uint16 ∨ column.type = .uint32 ∨
      column.type = .utf8String)
    (failed : Pool.valueAt source column offset = .error e) :
    CellStops source column offset e := by
  rcases plain with type | type | type | type
  case inr.inr.inr => exact .of_text small type failed
  all_goals rw [Pool.valueAt, Pool.Decode.valueAt, type] at failed
  case inl =>
    obtain ⟨missing, rfl⟩ := Source.byte_eq_error.mp (Except.map_eq_error.mp failed)
    exact .of_missing (by rw [type]; rfl) missing
  case inr.inl =>
    obtain ⟨missing, rfl⟩ := Source.short_eq_error.mp (Except.map_eq_error.mp failed)
    exact .of_missing (by rw [type]; rfl) missing
  case inr.inr.inl =>
    obtain ⟨missing, rfl⟩ := Source.word_eq_error.mp (Except.map_eq_error.mp failed)
    exact .of_missing (by rw [type]; rfl) missing

/-- A cell that cannot be read leaves the offset in front of it. -/
theorem of_readCell_eq_error {s t : Pool.Progress}
    (failed : Pool.readCell source column s = .error e t) :
    Pool.valueAt source column s.offset = .error e ∧ t = s := by
  rw [Pool.readCell_eq] at failed
  rcases bind_eq_error.mp failed with impossible | ⟨_, _, here, failed⟩
  · cases impossible
  cases here
  rcases bind_eq_error.mp failed with failed | ⟨_, _, -, failed⟩
  · obtain ⟨lost, rfl⟩ := ofExcept_eq_error.mp failed
    exact ⟨Except.map_eq_error.mp lost, rfl⟩
  · rcases bind_eq_error.mp failed with impossible | ⟨_, _, -, impossible⟩
    · cases impossible
    · exact (pure_ne_error impossible).elim

end Cells

/-- Why the entry at an offset cannot be read into a slot, with the error and the
offset that are left. -/
inductive StopsAt (source : Source) (slot start : Nat) : DecodingError → Nat → Prop
  | tag (missing : source.size < start + 1) :
    StopsAt source slot start (.outOfBounds start 1 source.size) start
  | kind {code : UInt8} (front : source.Holds start [code]) (unknown : ∀ tag : Tag, tag.code ≠ code) :
    StopsAt source slot start (.unsupportedConstantTag code slot) start
  | cell {tag : Tag} {done rest : List (Column Tag)} {column : Column Tag} {bytes : List UInt8}
      {cells : List (Cell Tag)} {e : DecodingError} (layout : tag.columns = done ++ column :: rest)
      (written : WrittenCells done bytes cells) (front : source.Holds start (tag.code :: bytes))
      (stops : CellStops source column (start + (tag.code :: bytes).length) e) :
    StopsAt source slot start e (start + (tag.code :: bytes).length)

theorem StopsAt.bounds {source : Source} {slot start stop : Nat} {e : DecodingError}
    (stops : StopsAt source slot start e stop) (inside : start ≤ source.size) :
    start ≤ stop ∧ stop ≤ source.size := by
  cases stops with
  | tag | kind => exact ⟨Nat.le_refl start, inside⟩
  | cell _ _ front _ => exact ⟨Nat.le_add_right _ _, front.fits (.inl inside)⟩

/-- What a store is like before an entry is read into a slot. -/
structure Ready (store : Store Tag) (slot : Nat) : Prop extends Stocked store where
  below : ∀ index ∈ store.rows, index < slot

section Entries

variable {source : Source} {slot : Nat}

theorem ready_emptyStore : Ready Pool.emptyStore 1 := by
  refine ⟨Pool.stocked_emptyStore, fun index taken => ?_⟩
  obtain ⟨row, found⟩ := Store.mem_rows_iff.mp taken
  exact (row_emptyStore index row found).elim

theorem Ready.exists_addRowAt {store : Store Tag} (ready : Ready store slot) {row : Row Tag}
    (len : row.cells.length = row.table.columns.length) :
    ∃ later, Store.addRowAt slot row store = .ok () later := by
  obtain ⟨position, bound, found, fits⟩ :=
    (Store.accepts_iff ready.shaped).mpr ⟨ready.tables row.table, len⟩
  have fresh : slot ∉ store.rows := fun taken => Nat.lt_irrefl slot (ready.below slot taken)
  exact ⟨_, Store.addRowAt_eq_ok.mpr ⟨fresh, position, bound, found, fits, rfl⟩⟩

theorem Ready.of_addRowAt {store later : Store Tag} (ready : Ready store slot) {row : Row Tag}
    (added : Store.addRowAt slot row store = .ok () later) :
    Ready later (slot + row.table.width) := by
  have wide := width_pos row.table
  refine ⟨ready.toStocked.of_addRowAt added, fun index taken => ?_⟩
  obtain ⟨-, position, -, -, -, rfl⟩ := Store.addRowAt_eq_ok.mp added
  · rcases Std.TreeMap.mem_insert.mp taken with same | old
    · have here : slot = index := by simpa using same
      omega
    · have before := ready.below index old
      omega

theorem onStore_ne_error {α : Type} {act : EStateM TableError (Store Tag) α}
    {store later : Store Tag} {a : α} (run : act store = .ok a later) {offset : Nat}
    {log : Array Event} {e : DecodingError} {t : Pool.Progress} :
    Pool.Reader.onStore act ⟨offset, store, log⟩ ≠ .error e t := by
  intro failed
  have ok : Pool.Reader.onStore act ⟨offset, store, log⟩ = .ok a ⟨offset, later, log⟩ :=
    Pool.Reader.onStore_eq_ok.mpr ⟨run, rfl, rfl⟩
  rw [ok] at failed
  cases failed

/-- The cells behind a tag stop at the first one that cannot be read. -/
theorem StopsAt.of_cells (small : source.size < 2 ^ 32) {tag : Tag} {start : Nat}
    (front : source.Holds start [tag.code]) {s t : Pool.Progress} (place : s.offset = start + 1)
    {e : DecodingError} (failed : tag.columns.mapM (Pool.readCell source) s = .error e t) :
    StopsAt source slot start e t.offset := by
  obtain ⟨done, column, rest, cells, r, layout, before, lost⟩ := mapM_eq_error.mp failed
  obtain ⟨bytes, written, behind, rfl⟩ := (Pool.mapM_readCell_eq_ok small).mp before
  obtain ⟨lost, left⟩ := of_readCell_eq_error lost
  have plain := tag.columns_plain column (by simp [layout])
  rw [place] at behind
  have whole : source.Holds start ([tag.code] ++ bytes) :=
    Source.holds_append.mpr ⟨front, behind⟩
  have reached : s.offset + bytes.length = start + (tag.code :: bytes).length := by
    rw [List.length_cons]
    omega
  rw [left]
  dsimp only at lost ⊢
  rw [reached] at lost ⊢
  exact .cell layout written whole (.of_valueAt small plain lost)

/-- Behind the cells of an entry, its row is registered. -/
theorem register_ne_error {tag : Tag} {cells : List (Cell Tag)} {s r t : Pool.Progress}
    (read : tag.columns.mapM (Pool.readCell source) s = .ok cells r) (ready : Ready s.store slot)
    {e : DecodingError} : (do
      Pool.Reader.note (.constantRead ⟨tag, slot, cells⟩)
      Pool.Reader.onStore (Store.addRowAt slot ⟨tag, slot, cells⟩)) r ≠ .error e t := by
  intro failed
  have same := Pool.mapM_readCell_store source tag.columns s
  rw [stateAfter_of_ok read] at same
  have len : (⟨tag, slot, cells⟩ : Row Tag).cells.length = tag.columns.length :=
    length_of_mapM_eq_ok read
  obtain ⟨later, added⟩ := ready.exists_addRowAt len
  rw [same] at added
  rcases bind_eq_error.mp failed with impossible | ⟨_, _, noted, failed⟩
  · cases impossible
  obtain rfl := Pool.Reader.note_eq_ok.mp noted
  exact onStore_ne_error added failed

/-- A row that cannot be read is stopped by its cells, as its table is there and
takes it. -/
theorem StopsAt.of_readRow (small : source.size < 2 ^ 32) {tag : Tag} {start : Nat}
    (front : source.Holds start [tag.code]) {s t : Pool.Progress} (place : s.offset = start + 1)
    (ready : Ready s.store slot) {e : DecodingError}
    (failed : Pool.readRow source slot tag s = .error e t) :
    StopsAt source slot start e t.offset := by
  rw [Pool.readRow_eq ready.toStocked] at failed
  rcases bind_eq_error.mp failed with failed | ⟨cells, _, read, failed⟩
  · exact .of_cells small front place failed
  · exact (register_ne_error read ready failed).elim

/-- An entry that cannot be read is stopped by its bytes. -/
theorem StopsAt.of_readEntry (small : source.size < 2 ^ 32) {s t : Pool.Progress}
    (ready : Ready s.store slot) {e : DecodingError}
    (failed : Pool.readEntry source slot s = .error e t) :
    StopsAt source slot s.offset e t.offset := by
  rcases bind_eq_error.mp failed with impossible | ⟨_, _, here, failed⟩
  · cases impossible
  cases here
  rcases bind_eq_error.mp failed with failed | ⟨code, _, first, failed⟩
  · obtain ⟨lost, rfl⟩ := ofExcept_eq_error.mp failed
    obtain ⟨missing, rfl⟩ := Source.byte_eq_error.mp lost
    exact .tag missing
  obtain ⟨run, rfl⟩ := ofExcept_eq_ok.mp first
  have front := Source.byte_eq_ok.mp run
  cases found : Tag.ofCode? code with
  | none =>
      rw [found] at failed
      cases failed
      refine .kind front fun tag same => ?_
      rw [Tag.ofCode?_eq_some.mpr same.symm] at found
      cases found
  | some tag =>
      rw [found] at failed
      obtain rfl := Tag.ofCode?_eq_some.mp found
      rcases bind_eq_error.mp failed with impossible | ⟨_, _, moved, failed⟩
      · cases impossible
      obtain rfl := Pool.advance_eq_ok.mp moved
      have inside := front.fits (.inr (List.cons_ne_nil _ _))
      rw [List.length_singleton] at inside
      have place : saturate (s.offset + 1) = s.offset + 1 := saturate_of_lt (by omega)
      rcases bind_eq_error.mp failed with failed | ⟨_, _, -, impossible⟩
      · exact .of_readRow (s := ⟨saturate (s.offset + 1), s.store, s.log⟩) small front place ready
          failed
      · exact (pure_ne_error impossible).elim

end Entries

/-- The number of slots that rows take. -/
def rowsWidth (rows : List (Row Tag)) : Nat := (rows.map fun row => row.table.width).sum

/-- How reading a pool has failed: the complete entries with their rows, and what
stops it behind them. -/
structure Stopped (source : Source) (count start : Nat) (e : DecodingError) (stop : Nat)
    (parts : List (List UInt8)) (rows : List (Row Tag)) : Prop where
  complete : List.Forall₂ WrittenRow parts rows
  front : source.Holds start parts.flatten
  laid : Laid 1 rows (1 + rowsWidth rows)
  inside : 1 + rowsWidth rows < count
  stops : StopsAt source (1 + rowsWidth rows) (start + parts.flatten.length) e stop
  bounds : start ≤ stop ∧ stop ≤ source.size

section Pools

variable {source : Source} {count : Nat} {e : DecodingError}

/-- Entries are read until one cannot be. -/
theorem exists_stopsAt_of_readEntries (small : source.size < 2 ^ 32) {left : Nat} :
    ∀ {slot : Nat} {s t : Pool.Progress}, slot + left = count →
      Pool.readEntries source slot left s = .error e t → Ready s.store slot →
      ∃ parts rows, List.Forall₂ WrittenRow parts rows ∧ source.Holds s.offset parts.flatten ∧
        Laid slot rows (slot + rowsWidth rows) ∧ slot + rowsWidth rows < count ∧
        StopsAt source (slot + rowsWidth rows) (s.offset + parts.flatten.length) e t.offset := by
  -- Wide entries use up two slots, so the recursion is on all smaller numbers of slots.
  induction left using Nat.strongRecOn with
  | ind left ih =>
      intro slot s t slots failed ready
      cases left with
      | zero => exact (pure_ne_error failed).elim
      | succ left =>
          rw [Pool.readEntries_succ] at failed
          rcases bind_eq_error.mp failed with failed | ⟨tag, r, first, failed⟩
          · have stops := StopsAt.of_readEntry small ready failed
            exact ⟨[], [], .nil, List.nil_prefix, .nil, by simp [rowsWidth]; omega, stops⟩
          have wide := width_pos tag
          obtain ⟨payload, cells, written, front, moved, -, added⟩ :=
            (Pool.readEntry_eq_ok small ready.toStocked).mp first
          rcases Nat.lt_or_ge (left + 1) tag.width with beyond | fits
          · -- A wide constant in the last slot leaves nothing to be read.
            have none : left + 1 - tag.width = 0 := by omega
            rw [none] at failed
            exact (pure_ne_error failed).elim
          have ready' : Ready r.store (slot + tag.width) := ready.of_addRowAt added
          obtain ⟨parts, rows, complete, behind, laid, inside, stops⟩ :=
            ih _ (by omega) (by omega) failed ready'
          rw [moved] at behind stops
          let row : Row Tag := ⟨tag, slot, cells⟩
          have width : slot + tag.width + rowsWidth rows = slot + rowsWidth (row :: rows) := by
            simp [rowsWidth, row, Nat.add_assoc]
          rw [width] at laid inside stops
          refine ⟨(tag.code :: payload) :: parts, row :: rows, .cons ⟨payload, rfl, written⟩ complete,
            ?_, .cons rfl laid, inside, ?_⟩
          · exact Source.holds_append.mpr ⟨front, behind⟩
          · rwa [Nat.add_assoc, ← List.length_append] at stops

/-- A pool that was not read is stopped behind complete entries by the first bytes
that are missing or malformed. -/
theorem exists_stopped_of_read (small : source.size < 2 ^ 32) {start : Nat}
    (inside : start ≤ source.size) (failed : (Pool.read source count start).result = .error e) :
    ∃ parts rows, Stopped source count start e (Pool.read source count start).offset parts rows := by
  cases run : Pool.readEntries source 1 (count - 1)
      ⟨start, Pool.emptyStore, #[.constantsBegun start (count - 1)]⟩ with
  | ok u t =>
      rw [Pool.read_of_ok run] at failed
      cases failed
  | error e' t =>
      rw [Pool.read_of_error run] at failed ⊢
      cases failed
      cases count with
      | zero => exact (pure_ne_error run).elim
      | succ left =>
          rw [Nat.add_sub_cancel] at run
          have further := exists_stopsAt_of_readEntries small (Nat.add_comm 1 left) run
          dsimp only at further
          obtain ⟨parts, rows, complete, front, laid, before, stops⟩ := further ready_emptyStore
          have reached := front.fits (.inl inside)
          have bounds := stops.bounds reached
          exact ⟨parts, rows, complete, front, laid, before, stops,
            Nat.le_trans (Nat.le_add_right _ _) bounds.1, bounds.2⟩

/-- A constant, and a string behind it that is not well-formed. -/
def badString : Source := ⟨⟨#[7, 0, 1, 1, 0, 2, 0xC0, 0x00]⟩⟩

theorem exists_stopped_of_read_badString :
    ∃ parts rows, Stopped badString 3 0 (.invalidModifiedUtf8 6)
      (Pool.read badString 3 0).offset parts rows := by
  have refused : (do
      let _ ← (Pool.read badString 3 0).result
      return () : Except DecodingError Unit) = .error (.invalidModifiedUtf8 6) := by decide +kernel
  exact exists_stopped_of_read (by decide) (Nat.zero_le _) (Except.map_eq_error.mp refused)

end Pools

end ClassFormat.Constant
