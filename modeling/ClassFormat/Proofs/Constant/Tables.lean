import ClassFormat.Constant.Pool
import ClassFormat.Proofs.Table.Keeps
import ClassFormat.Proofs.Table.Making

/-!
# The tables of a constant pool

A table is registered for every kind before the first entry is read, and rows do
not change its columns. So the table of a kind is always found, its row has cells,
and all of them suit their columns: of the checks of the tables, none fails.
-/
namespace ClassFormat.Constant

/-- The store has a table for every kind, with its columns. -/
structure Stocked (store : Store Tag) : Prop where
  tables : ∀ tag, store.containsTable tag
  shaped : ∀ table ∈ store.tables, table.columns = table.tag.columns

namespace Stocked

variable {store later : Store Tag}

theorem of_addRowAt (stocked : Stocked store) {slot : Nat} {row : Row Tag}
    (added : Store.addRowAt slot row store = .ok () later) : Stocked later := by
  obtain ⟨-, position, -, -, -, rfl⟩ := Store.addRowAt_eq_ok.mp added
  refine ⟨fun tag => ?_, Store.columns_withRow stocked.shaped position slot row⟩
  rw [Store.containsTable_withRow]
  exact stocked.tables tag

end Stocked

theorem Tag.columns_ne_nil (tag : Tag) : tag.columns ≠ [] := by
  cases tag <;> decide

theorem Tag.mem_all (tag : Tag) : tag ∈ all := by
  cases tag <;> decide

namespace Pool

namespace Reader

variable {α : Type} {s t : Progress} {a : α}

theorem currentOffset_eq_ok {n : Nat} : currentOffset s = .ok n t ↔ n = s.offset ∧ s = t := by
  change EStateM.Result.ok s.offset s = .ok n t ↔ _
  rw [EStateM.Result.ok.injEq, eq_comm]

theorem note_eq_ok {event : Event} {u : Unit} :
    note event s = .ok u t ↔ t = ⟨s.offset, s.store, s.log.push event⟩ := by
  change EStateM.Result.ok () { s with log := s.log.push event } = .ok u t ↔ _
  rw [EStateM.Result.ok.injEq, eq_self, true_and, eq_comm]

theorem onStore_eq_ok {act : EStateM TableError (Store Tag) α} :
    onStore act s = .ok a t ↔
      act s.store = .ok a t.store ∧ t.offset = s.offset ∧ t.log = s.log := by
  obtain ⟨offset, store, log⟩ := s
  obtain ⟨offset', store', log'⟩ := t
  unfold onStore
  constructor
  · intro h
    dsimp only at h
    split at h
    next run =>
      cases h
      exact ⟨run, rfl, rfl⟩
    next => cases h
  · intro h
    obtain ⟨run, rfl, rfl⟩ := h
    dsimp only at run ⊢
    rw [run]

end Reader

theorem advance_eq_ok {source : Source} {n : Nat} {s t : Progress} {u : Unit} :
    Decode.advance .plain source n s = .ok u t ↔ t = ⟨saturate (s.offset + n), s.store, s.log⟩ := by
  change EStateM.Result.ok () { s with offset := saturate (s.offset + n) } = .ok u t ↔ _
  rw [EStateM.Result.ok.injEq, eq_self, true_and, eq_comm]

/-- The store with a table for every kind, and no row. -/
def emptyStore : Store Tag :=
  Tag.all.foldl (fun store tag => store.ensureTable tag tag.columns) {}

theorem stocked_emptyStore : Stocked emptyStore := by
  -- Behind each table that is made, the kinds that are left are those without one.
  have fills (tags : List Tag) (store : Store Tag)
      (known : ∀ tag, store.containsTable tag ∨ tag ∈ tags)
      (shaped : ∀ table ∈ store.tables, table.columns = table.tag.columns) :
      Stocked (tags.foldl (fun store tag => store.ensureTable tag tag.columns) store) := by
    induction tags generalizing store with
    | nil => exact ⟨fun tag => (known tag).resolve_right List.not_mem_nil, shaped⟩
    | cons tag tags ih =>
        refine ih _ (fun other => ?_) (Store.columns_ensureTable shaped tag)
        rcases known other with old | new
        · exact .inl ((Store.extends_ensureTable store tag tag.columns).tables other old)
        · rcases List.mem_cons.mp new with rfl | later
          · exact .inl (Store.containsTable_ensureTable store other other.columns)
          · exact .inr later
  exact fills Tag.all {} (fun tag => .inr tag.mem_all)
    fun _ member => (Array.not_mem_empty _ member).elim

theorem rows_emptyStore : emptyStore.rows = ∅ := by
  have keeps (tags : List Tag) (store : Store Tag) :
      (tags.foldl (fun store tag => store.ensureTable tag tag.columns) store).rows = store.rows := by
    induction tags generalizing store with
    | nil => rfl
    | cons tag tags ih =>
        rw [List.foldl_cons, ih, Store.rows_ensureTable]
  exact keeps Tag.all {}

/-- All tables can be registered. -/
theorem openTables_eq : openTables {} = .ok () emptyStore := by
  have opens (tags : List Tag) (store : Store Tag) (apart : tags.Nodup)
      (free : ∀ tag ∈ tags, ¬store.containsTable tag) :
      (tags.forM fun tag => do
        let layout := tag.layout
        let columns ← ofExcept (Column.describe tag layout.types (layout.map Prod.fst))
        Store.makeTable tag columns) store =
        .ok () (tags.foldl (fun store tag => store.ensureTable tag tag.columns) store) := by
    induction tags generalizing store with
    | nil => rfl
    | cons tag tags ih =>
        obtain ⟨once, apart⟩ := List.nodup_cons.mp apart
        obtain ⟨here, later⟩ := List.forall_mem_cons.mp free
        have layout : tag.layout ≠ [] := by cases tag <;> decide
        refine bind_eq_ok.mpr ⟨(), _, bind_eq_ok.mpr ⟨tag.columns, store, ?_, ?_⟩, ih _ apart ?_⟩
        · exact ofExcept_eq_ok.mpr ⟨Column.describe_layout layout tag, rfl⟩
        · exact Store.makeTable_eq tag.columns_ne_nil here
        · intro other member present
          rw [Store.containsTable_iff, Store.tags_ensureTable,
            if_neg (mt Store.containsTable_iff.mpr here)] at present
          rcases List.mem_append.mp present with old | new
          · exact later other member (Store.containsTable_iff.mpr old)
          · exact once (List.mem_singleton.mp new ▸ member)
  exact opens Tag.all {} (by decide) fun tag _ => by simp [Store.containsTable]

/-- So the entries are read into a store that has all tables. -/
theorem readPool_eq (source : Source) (count offset : Nat) :
    readPool source count ⟨offset, {}, #[]⟩ = (do
      readEntries source 1 (count - 1)
      return (← Reader.currentOffset) - offset)
        ⟨offset, emptyStore, #[.constantsBegun offset (count - 1)]⟩ := by
  have opened : Reader.onStore openTables ⟨offset, {}, #[]⟩ = .ok () ⟨offset, emptyStore, #[]⟩ := by
    rw [Reader.onStore_eq_ok]
    dsimp only
    exact ⟨openTables_eq, rfl, rfl⟩
  change (Reader.onStore openTables >>= _) _ = _
  rw [bind_of_ok opened]
  generalize emptyStore = store
  rfl

theorem read_of_ok {source : Source} {count offset : Nat} {u : Unit} {t : Progress}
    (run : readEntries source 1 (count - 1)
      ⟨offset, emptyStore, #[.constantsBegun offset (count - 1)]⟩ = .ok u t) :
    read source count offset =
      ⟨.ok ⟨t.store, offset, t.offset - offset, count⟩, t.offset, t.log⟩ := by
  have ran : Decode.pool .plain source count ⟨offset, {}, #[]⟩ = .ok (t.offset - offset) t := by
    change readPool source count ⟨offset, {}, #[]⟩ = _
    rw [readPool_eq, bind_of_ok run]
    rfl
  rw [read, Decode.read, ran]

theorem read_of_error {source : Source} {count offset : Nat} {e : DecodingError} {t : Progress}
    (run : readEntries source 1 (count - 1)
      ⟨offset, emptyStore, #[.constantsBegun offset (count - 1)]⟩ = .error e t) :
    read source count offset = ⟨.error e, t.offset, t.log⟩ := by
  have ran : Decode.pool .plain source count ⟨offset, {}, #[]⟩ = .error e t := by
    change readPool source count ⟨offset, {}, #[]⟩ = _
    rw [readPool_eq, bind_eq_error.mpr (.inl run)]
  rw [read, Decode.read, ran]

/-- The cell that a value makes. -/
def cellAt (source : Source) (column : Column Tag) (offset : Nat) :
    Except DecodingError (Cell Tag) := do
  let (raw, value, size) ← valueAt source column offset
  return ⟨column, raw, size, value⟩

/-- A value that was read suits its column. -/
theorem shape_of_valueAt {source : Source} {column : Column Tag} {offset raw size : Nat}
    {value : Value Tag} (read : valueAt source column offset = .ok (raw, value, size)) :
    value.shape = column.type.shape := by
  unfold valueAt Decode.valueAt at read
  split at read
  iterate 3
    next type =>
      obtain ⟨n, -, same⟩ := Except.map_eq_ok.mp read
      cases same
      rw [type]
      rfl
  next type =>
    obtain ⟨length, -, read⟩ := Except.bind_eq_ok.mp read
    obtain ⟨start, -, read⟩ := Except.bind_eq_ok.mp read
    obtain ⟨bytes, -, read⟩ := Except.bind_eq_ok.mp read
    split at read
    next =>
      cases read
      rw [type]
      rfl
    next => cases read
  next => cases read

/-- Cells that are read pass the check of their columns. -/
theorem readCell_eq (source : Source) (column : Column Tag) :
    readCell source column = do
      let cell ← ofExcept (cellAt source column (← Reader.currentOffset))
      Decode.advance .plain source cell.size
      return cell := by
  funext s
  change (ofExcept (valueAt source column s.offset) >>= _) s =
    (ofExcept (cellAt source column s.offset) >>= _) s
  unfold cellAt
  cases read : valueAt source column s.offset with
  | error e => rfl
  | ok result =>
      obtain ⟨raw, value, size⟩ := result
      have made : Cell.make column raw size value = .ok ⟨column, raw, size, value⟩ :=
        if_pos (shape_of_valueAt read)
      change Reads.plain.check (Cell.make column raw size value) _ = _
      rw [made]
      rfl

/-- Where all tables are there, a row is registered with the cells that were read
for its kind. -/
theorem readRow_eq {source : Source} {slot : Nat} {tag : Tag} {s : Progress}
    (stocked : Stocked s.store) :
    readRow source slot tag s = (do
      let cells ← tag.columns.mapM (readCell source)
      Reader.note (.constantRead ⟨tag, slot, cells⟩)
      Reader.onStore (Store.addRowAt slot ⟨tag, slot, cells⟩)) s := by
  obtain ⟨table, found, columns⟩ := Store.exists_table stocked.shaped (stocked.tables tag)
  have here : Reader.table tag s = .ok table s := ofExcept_eq_ok.mpr ⟨Except.mapError_eq_ok.mpr found, rfl⟩
  change (Reader.table tag >>= _) s = _
  rw [bind_of_ok here, columns]
  cases read : tag.columns.mapM (readCell source) s with
  | error e t => exact (bind_eq_error.mpr (.inl read)).trans (bind_eq_error.mpr (.inl read)).symm
  | ok cells t =>
      have made : Row.make tag slot cells = .ok ⟨tag, slot, cells⟩ :=
        Row.make_eq (ne_nil_of_mapM_eq_ok tag.columns_ne_nil read)
      have checked : Reads.plain.check (Row.make tag slot cells) t = .ok ⟨tag, slot, cells⟩ t :=
        Reads.check_eq_ok.mpr ⟨made, rfl⟩
      rw [bind_of_ok read]
      exact (bind_of_ok read).trans (bind_of_ok checked)

end Pool

end ClassFormat.Constant
