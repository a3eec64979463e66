import ClassFormat.Proofs.Table.Numbering

/-!
# Row stores that keep their tables

`Store.Keeps` says that a store has all that another one has, every table with
its columns and all rows of it at their positions. Neither a new table nor a
new row takes anything away.
-/
namespace ClassFormat

variable {τ : Type}

/-- The later table has all rows of the first one in front. -/
structure Table.Grows (table later : Table τ) : Prop where
  tag : later.tag = table.tag
  columns : later.columns = table.columns
  rows : table.rows.toList <+: later.rows.toList

theorem Table.Grows.refl (table : Table τ) : table.Grows table :=
  ⟨rfl, rfl, List.prefix_rfl⟩

theorem Table.grows_push (table : Table τ) (row : Row τ) : table.Grows (table.push row) := by
  refine ⟨rfl, rfl, ?_⟩
  rw [Table.push, Array.toList_push]
  exact List.prefix_append _ _

theorem Table.of_row_eq_error [TableTag τ] {table : Table τ} {index : Nat} {e : TableError}
    (failed : table.row index = .error e) :
    e = .rowNotInTable index (TableTag.label table.tag) := by
  unfold Table.row at failed
  split at failed
  · cases failed
  · cases failed
    rfl

namespace Store

variable [DecidableEq τ]

/-- The row at a position of a table. -/
def rowAt? (store : Store τ) (place : τ × Nat) : Option (Row τ) :=
  (store.table? place.1).bind fun table => table.rows[place.2]?

/-- The number of rows in a table. -/
def size (store : Store τ) (tag : τ) : Nat :=
  (store.table? tag).elim 0 fun table => table.rows.size

/-- The tags of the tables, in the order of the tables. -/
def tags (store : Store τ) : List τ := store.tables.toList.map Table.tag

/-- The rows in the table of a tag, if there is one. -/
def rowsOf (store : Store τ) (tag : τ) : List (Row τ) :=
  (store.table? tag).elim [] fun table => table.rows.toList

/-- The later store has the same rows and tables, and perhaps others. -/
structure Keeps (store later : Store τ) : Prop where
  row : ∀ index row, store.row index = .ok row → later.row index = .ok row
  table : ∀ tag table, store.table? tag = some table →
    ∃ grown, later.table? tag = some grown ∧ table.Grows grown
  tags : store.tables.toList.map Table.tag <+: later.tables.toList.map Table.tag

/-- The store with an empty table at the end. -/
def withTable (store : Store τ) (tag : τ) (columns : List (Column τ)) : Store τ :=
  { store with tables := store.tables.push (.empty tag columns) }

section Tables

variable {store : Store τ} {tag : τ}

theorem table_of_table? {table : Table τ} (found : store.table? tag = some table) :
    table ∈ store.tables ∧ table.tag = tag := by
  have member := Array.mem_of_find?_eq_some found
  have same := Array.find?_some found
  exact ⟨member, of_decide_eq_true same⟩

theorem containsTable_iff : store.containsTable tag ↔ tag ∈ store.tags := by
  unfold tags
  simp only [containsTable, Array.any_eq_true', decide_eq_true_eq, List.mem_map,
    Array.mem_toList_iff]

theorem of_entry_eq_error [TableTag τ] (present : store.containsTable tag) {index : Nat}
    {e : TableError} (failed : store.entry tag index = .error e) :
    e = .rowNotInTable index (TableTag.label tag) := by
  unfold entry at failed
  rw [if_pos present] at failed
  split at failed
  · split at failed
    · cases failed
    · cases failed
      rfl
  · cases failed
    rfl

theorem exists_table? (present : store.containsTable tag) :
    ∃ table, store.table? tag = some table := by
  have found : (store.table? tag).isSome := Array.find?_isSome.mpr (Array.any_eq_true'.mp present)
  exact Option.isSome_iff_exists.mp found

/-- A table that is looked up has the columns of its tag. -/
theorem exists_table [TableTag τ] {columns : τ → List (Column τ)}
    (shaped : ∀ table ∈ store.tables, table.columns = columns table.tag)
    (present : store.containsTable tag) :
    ∃ table, store.table tag = .ok table ∧ table.columns = columns tag := by
  obtain ⟨table, found⟩ := exists_table? present
  obtain ⟨member, same⟩ := table_of_table? found
  refine ⟨table, ?_, by rw [shaped table member, same]⟩
  unfold Store.table
  rw [found]

theorem table?_withTable (columns : List (Column τ)) (other : τ) :
    (store.withTable tag columns).table? other =
      (store.table? other).or (if tag = other then some (.empty tag columns) else none) := by
  simp [table?, withTable, Array.find?_push, Table.empty]

omit [DecidableEq τ] in
theorem tags_withTable (columns : List (Column τ)) :
    (store.withTable tag columns).tables.toList.map Table.tag =
      store.tables.toList.map Table.tag ++ [tag] := by
  simp [withTable, Table.empty]

theorem tags_ensureTable (store : Store τ) (tag : τ) (columns : List (Column τ)) :
    (store.ensureTable tag columns).tags =
      if tag ∈ store.tags then store.tags else store.tags ++ [tag] := by
  unfold ensureTable
  by_cases known : store.containsTable tag
  · rw [if_pos known, if_pos (containsTable_iff.mp known)]
  · rw [if_neg known, if_neg (mt containsTable_iff.mpr known)]
    exact tags_withTable columns

variable {row : Row τ} {position : Nat}

/-- As tags are not used twice, the table that gets the row is told by its
tag. -/
theorem tables_withRow (apart : (store.tables.toList.map Table.tag).Nodup)
    (found : store.position? row.table = some position) (index : Nat) :
    (store.withRow position index row).tables = store.tables.map fun table =>
      if table.tag = row.table then table.push { row with index := index } else table := by
  obtain ⟨bound, same, -⟩ := Array.findIdx?_eq_some_iff_getElem.mp found
  have here : store.tables[position].tag = row.table := of_decide_eq_true same
  refine Array.ext (by simp [withRow]) fun i small _ => ?_
  have small : i < store.tables.size := by simpa [withRow] using small
  have only : position = i ↔ store.tables[i].tag = row.table := by
    rw [← here]
    constructor
    · intro equal
      subst equal
      rfl
    · intro equal
      have length : (store.tables.toList.map Table.tag).length = store.tables.size := by simp
      have small' : i < (store.tables.toList.map Table.tag).length := by rwa [length]
      have bound' : position < (store.tables.toList.map Table.tag).length := by rwa [length]
      have tags : (store.tables.toList.map Table.tag)[i] =
          (store.tables.toList.map Table.tag)[position] := by simpa using equal
      exact (apart.getElem_inj_iff.mp tags).symm
  simp only [withRow, Array.getElem_modify, Array.getElem_map, only]

theorem tags_withRow (apart : (store.tables.toList.map Table.tag).Nodup)
    (found : store.position? row.table = some position) (index : Nat) :
    (store.withRow position index row).tables.toList.map Table.tag =
      store.tables.toList.map Table.tag := by
  rw [tables_withRow apart found, Array.toList_map, List.map_map]
  refine List.map_congr_left fun table _ => ?_
  dsimp only [Function.comp]
  split <;> rfl

theorem table?_withRow (apart : (store.tables.toList.map Table.tag).Nodup)
    (found : store.position? row.table = some position) (index : Nat) (other : τ) :
    (store.withRow position index row).table? other = (store.table? other).map fun table =>
      if table.tag = row.table then table.push { row with index := index } else table := by
  rw [table?, tables_withRow apart found, Array.find?_map, table?]
  congr 2
  funext table
  dsimp only [Function.comp]
  split <;> rfl

end Tables

namespace Keeps

variable {store later last : Store τ}

theorem mint (store : Store τ) (minted : Nat) : store.Keeps { store with minted := minted } :=
  ⟨fun _ _ h => h, fun _ table h => ⟨table, h, .refl table⟩, List.prefix_rfl⟩

theorem refl (store : Store τ) : store.Keeps store := mint store store.minted

theorem trans (h : store.Keeps later) (k : later.Keeps last) : store.Keeps last := by
  refine ⟨fun index row found => k.row _ _ (h.row _ _ found), fun tag table found => ?_,
    h.tags.trans k.tags⟩
  obtain ⟨grown, found', first⟩ := h.table tag table found
  obtain ⟨more, found'', second⟩ := k.table tag grown found'
  refine ⟨more, found'', second.tag.trans first.tag, second.columns.trans first.columns, ?_⟩
  exact first.rows.trans second.rows

theorem rowAt? (h : store.Keeps later) {place : τ × Nat} {row : Row τ}
    (found : store.rowAt? place = some row) : later.rowAt? place = some row := by
  obtain ⟨table, here, at_place⟩ := Option.bind_eq_some_iff.mp found
  obtain ⟨grown, there, grows⟩ := h.table _ _ here
  obtain ⟨more, rows⟩ := grows.rows
  rw [← Array.getElem?_toList] at at_place
  obtain ⟨bound, -⟩ := List.getElem?_eq_some_iff.mp at_place
  refine Option.bind_eq_some_iff.mpr ⟨grown, there, ?_⟩
  rw [← Array.getElem?_toList, ← rows, List.getElem?_append_left bound]
  exact at_place

theorem withTable {tag : τ} (columns : List (Column τ)) :
    store.Keeps (store.withTable tag columns) := by
  refine ⟨fun _ _ h => h, fun other table found => ⟨table, ?_, .refl table⟩, ?_⟩
  · rw [table?_withTable, found]
    rfl
  · rw [tags_withTable]
    exact List.prefix_append _ _

theorem withRow [TableTag τ] {row : Row τ} {position index : Nat}
    (apart : (store.tables.toList.map Table.tag).Nodup) (fresh : index ∉ store.rows)
    (found : store.position? row.table = some position) :
    store.Keeps (store.withRow position index row) := by
  have grown := extends_withRow fresh position row
  have tags := tags_withRow apart found index
  refine ⟨fun _ _ here => grown.row here, fun tag table here => ?_, tags ▸ List.prefix_rfl⟩
  rw [table?_withRow apart found, here, Option.map_some]
  refine ⟨_, rfl, ?_⟩
  split
  · exact Table.grows_push table _
  · exact .refl table

end Keeps

end Store

end ClassFormat
