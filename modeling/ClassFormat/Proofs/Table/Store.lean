import Mathlib.Algebra.Order.Ring.Nat
import ClassFormat.Proofs.Computation
import ClassFormat.Table.Store

/-!
# Row stores that grow

`Store.Extends` says that a store has all tables and rows of another one. Every
operation extends the store, so a reference that once led to a row always leads
to it.
-/
namespace ClassFormat.Store

variable {τ : Type} [DecidableEq τ]

/-- The second store has the tables and the rows of the first one. -/
structure Extends (store store' : Store τ) : Prop where
  tables : ∀ tag, store.containsTable tag → store'.containsTable tag
  rows : ∀ (index : Nat) (row : Row τ),
    store.rows[index]? = some row → store'.rows[index]? = some row

namespace Extends

variable [TableTag τ] {store store' store'' : Store τ}

omit [TableTag τ] in
theorem refl (store : Store τ) : store.Extends store := ⟨fun _ h => h, fun _ _ h => h⟩

omit [TableTag τ] in
theorem trans (h : store.Extends store') (k : store'.Extends store'') : store.Extends store'' :=
  ⟨fun tag t => k.tables tag (h.tables tag t), fun i row r => k.rows i row (h.rows i row r)⟩

omit [TableTag τ] in
theorem row (h : store.Extends store') {index : Nat} {row : Row τ}
    (found : store.row index = .ok row) : store'.row index = .ok row := by
  unfold Store.row at found ⊢
  split at found
  next present =>
    cases found
    rw [h.rows _ _ present]
  next => cases found

theorem entry (h : store.Extends store') {tag : τ} {index : Nat} {row : Row τ}
    (found : store.entry tag index = .ok row) : store'.entry tag index = .ok row := by
  unfold Store.entry at found ⊢
  split at found
  next table =>
    rw [if_pos (h.tables _ table)]
    split at found
    next present =>
      rw [h.rows _ _ present]
      exact found
    next => cases found
  next => cases found

theorem resolve (h : store.Extends store') {reference : Reference τ} {row : Row τ}
    (found : store.resolve reference = .ok row) : store'.resolve reference = .ok row := by
  unfold Store.resolve at found ⊢
  split at found
  next => exact h.entry found
  next => exact h.row found

end Extends

variable {store store' : Store τ}

theorem position?_isSome {tag : τ} (h : store.containsTable tag) :
    ∃ position, ∃ bound : position < store.tables.size, store.position? tag = some position ∧
      store.tables[position].tag = tag := by
  unfold containsTable at h
  obtain ⟨i, bound, same⟩ := Array.any_eq_true.mp h
  cases found : store.position? tag with
  | none =>
      have all := Array.findIdx?_eq_none_iff.mp found
      have := all store.tables[i] (Array.getElem_mem bound)
      rw [this] at same
      cases same
  | some position =>
      obtain ⟨bound, same, -⟩ := Array.findIdx?_eq_some_iff_getElem.mp found
      exact ⟨position, bound, rfl, of_decide_eq_true same⟩

theorem containsTable_of_position? {tag : τ} {position : Nat}
    (h : store.position? tag = some position) : store.containsTable tag := by
  obtain ⟨bound, same, -⟩ := Array.findIdx?_eq_some_iff_getElem.mp h
  exact Array.any_eq_true.mpr ⟨position, bound, same⟩

theorem containsTable_ensureTable (store : Store τ) (tag : τ) (columns : List (Column τ)) :
    (store.ensureTable tag columns).containsTable tag := by
  unfold ensureTable
  split
  next h => exact h
  next => simp [containsTable, Table.empty]

theorem rows_ensureTable (store : Store τ) (tag : τ) (columns : List (Column τ)) :
    (store.ensureTable tag columns).rows = store.rows := by
  unfold ensureTable
  split <;> rfl

theorem extends_ensureTable (store : Store τ) (tag : τ) (columns : List (Column τ)) :
    store.Extends (store.ensureTable tag columns) := by
  unfold ensureTable
  split
  next => exact .refl store
  next =>
    refine ⟨fun other h => ?_, fun _ _ h => h⟩
    simp only [containsTable, Array.any_push] at h ⊢
    rw [h, Bool.true_or]

/-- The store with a row in the table at a position, under an index of its
own. -/
def withRow (store : Store τ) (position index : Nat) (row : Row τ) : Store τ :=
  { store with
    tables := store.tables.modify position fun table => table.push { row with index := index }
    rows := store.rows.insert index { row with index := index } }

omit [DecidableEq τ] in
theorem map_tag_withRow (store : Store τ) (position index : Nat) (row : Row τ) :
    (store.withRow position index row).tables.map Table.tag = store.tables.map Table.tag := by
  apply Array.ext
  · simp [withRow]
  · intro i _ _
    simp only [withRow, Array.getElem_map, Array.getElem_modify]
    split <;> rfl

theorem containsTable_withRow (store : Store τ) (position index : Nat) (row : Row τ) (tag : τ) :
    (store.withRow position index row).containsTable tag = store.containsTable tag := by
  have lookup (tables : Array (Table τ)) :
      (tables.any fun table => table.tag = tag) = (tables.map Table.tag).any (· = tag) := by
    rw [Array.any_map]
    rfl
  rw [containsTable, containsTable, lookup, map_tag_withRow, ← lookup]

theorem extends_withRow {index : Nat} (fresh : index ∉ store.rows) (position : Nat) (row : Row τ) :
    store.Extends (store.withRow position index row) := by
  refine ⟨fun tag h => by rwa [containsTable_withRow], fun i r h => ?_⟩
  have other : index ≠ i := by
    intro same
    subst same
    exact fresh (Std.TreeMap.mem_iff_isSome_getElem?.mpr (by rw [h]; rfl))
  simp only [withRow, Std.TreeMap.getElem?_insert]
  rwa [if_neg (by simpa using other)]

omit [DecidableEq τ] in
/-- What is settled by the tag settles the columns, whatever rows are added. -/
theorem columns_withRow {columns : τ → List (Column τ)}
    (shaped : ∀ table ∈ store.tables, table.columns = columns table.tag)
    (position index : Nat) (row : Row τ) :
    ∀ table ∈ (store.withRow position index row).tables, table.columns = columns table.tag := by
  intro table member
  obtain ⟨i, bound, rfl⟩ := Array.mem_iff_getElem.mp member
  simp only [withRow, Array.size_modify] at bound
  simp only [withRow, Array.getElem_modify]
  have here := shaped store.tables[i] (Array.getElem_mem bound)
  split
  · exact here
  · exact here

theorem columns_ensureTable {columns : τ → List (Column τ)}
    (shaped : ∀ table ∈ store.tables, table.columns = columns table.tag) (tag : τ) :
    ∀ table ∈ (store.ensureTable tag (columns tag)).tables, table.columns = columns table.tag := by
  unfold ensureTable
  split
  next => exact shaped
  next =>
    intro table member
    rcases Array.mem_push.mp member with old | rfl
    · exact shaped table old
    · rfl

omit [DecidableEq τ] in
theorem row_withRow (store : Store τ) (position index : Nat) (row : Row τ) :
    (store.withRow position index row).rows[index]? = some { row with index := index } :=
  Std.TreeMap.getElem?_insert_self

variable [TableTag τ]

/-- When a row is registered: its index is free, its table is there, and it has
a cell for each column. -/
theorem addRowAt_eq_ok {index : Nat} {row : Row τ} {u : Unit} :
    addRowAt index row store = .ok u store' ↔
      index ∉ store.rows ∧ ∃ position, ∃ bound : position < store.tables.size,
        store.position? row.table = some position ∧
        row.cells.length = store.tables[position].columns.length ∧
        store' = store.withRow position index row := by
  unfold addRowAt
  by_cases taken : store.rows.contains index
  · rw [if_pos taken]
    constructor
    · intro h
      cases h
    · intro h
      exact (h.1 taken).elim
  · rw [if_neg taken]
    cases found : store.position? row.table with
    | none =>
        constructor
        · intro h
          cases h
        · intro h
          obtain ⟨-, position, -, impossible, -⟩ := h
          cases impossible
    | some position =>
        obtain ⟨bound, -⟩ := Array.findIdx?_eq_some_iff_getElem.mp found
        have columns : (store.tables[position]?.map fun table => table.columns.length).getD 0 =
            store.tables[position].columns.length := by
          rw [Array.getElem?_eq_getElem bound]
          rfl
        dsimp only
        rw [columns]
        constructor
        · intro h
          split at h
          next same =>
            cases h
            exact ⟨taken, position, bound, rfl, same, rfl⟩
          next => cases h
        · intro h
          obtain ⟨-, _, _, same, cells, rfl⟩ := h
          cases same
          rw [if_pos cells]
          rfl

theorem addRow_eq_ok {index : Nat} {row : Row τ} :
    addRow row store = .ok index store' ↔
      index = (store.minted + 1) % 2 ^ 32 ∧
        addRowAt index row { store with minted := index } = .ok () store' := by
  unfold addRow
  rw [bind_eq_ok]
  constructor
  · intro h
    obtain ⟨i, r, minted, h⟩ := h
    cases minted
    obtain ⟨_, t, added, done⟩ := bind_eq_ok.mp h
    obtain ⟨rfl, rfl⟩ := pure_eq_ok.mp done
    exact ⟨rfl, added⟩
  · intro h
    obtain ⟨rfl, added⟩ := h
    exact ⟨_, _, rfl, bind_eq_ok.mpr ⟨(), store', added, rfl⟩⟩

theorem entry_eq_ok {tag : τ} {index : Nat} {row : Row τ} :
    store.entry tag index = .ok row ↔
      store.containsTable tag ∧ store.rows[index]? = some row ∧ row.table = tag := by
  unfold entry
  by_cases table : store.containsTable tag
  · rw [if_pos table]
    cases found : store.rows[index]? with
    | none => simp
    | some other =>
        dsimp only
        split
        next same =>
          rw [Except.ok.injEq]
          constructor
          · intro h
            cases h
            exact ⟨table, rfl, same⟩
          · intro h
            exact Option.some.inj h.2.1
        next different =>
          constructor
          · intro h
            cases h
          · intro h
            cases h.2.1
            exact (different h.2.2).elim
  · rw [if_neg table]
    constructor
    · intro h
      cases h
    · intro h
      exact (table h.1).elim

/-- The reference to a row that was registered leads to it. -/
theorem resolve_of_addRow {index : Nat} {row : Row τ} (h : addRow row store = .ok index store') :
    store.Extends store' ∧
      store'.resolve (.typed row.table index) = .ok { row with index := index } := by
  obtain ⟨-, added⟩ := addRow_eq_ok.mp h
  obtain ⟨fresh, position, bound, found, -, rfl⟩ := addRowAt_eq_ok.mp added
  refine ⟨⟨fun tag table => ?_, fun i r present => ?_⟩, entry_eq_ok.mpr ⟨?_, ?_, rfl⟩⟩
  · exact (extends_withRow fresh position row).tables tag table
  · exact (extends_withRow fresh position row).rows i r present
  · rw [containsTable_withRow]
    exact containsTable_of_position? found
  · exact row_withRow _ position index row

end ClassFormat.Store
