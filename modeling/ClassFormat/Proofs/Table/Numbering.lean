import Mathlib.Data.List.Sort
import ClassFormat.Proofs.Table.Store

/-!
# Row indexes given in order

Stores that rows are only added to under the next index use the numbers of four
bytes one after the other, from one on. Zero comes last, and then every index
is taken.
-/
namespace ClassFormat.Store

variable {τ : Type}

section Indexes

variable {store : Store τ}

theorem row_eq_ok {index : Nat} {row : Row τ} :
    store.row index = .ok row ↔ store.rows[index]? = some row := by
  unfold Store.row
  cases store.rows[index]? with
  | none => simp
  | some other => simp

theorem mem_rows_iff {index : Nat} :
    index ∈ store.rows ↔ ∃ row, store.row index = .ok row := by
  simp only [row_eq_ok, Std.TreeMap.mem_iff_isSome_getElem?, Option.isSome_iff_exists]

/-- What a reference leads to is the row of its index. -/
theorem row_of_resolve [DecidableEq τ] [TableTag τ] {reference : Reference τ} {row : Row τ}
    (found : store.resolve reference = .ok row) : store.row reference.index = .ok row := by
  unfold resolve at found
  split at found
  next => exact row_eq_ok.mpr (entry_eq_ok.mp found).2.1
  next => exact found

theorem mem_indexes {index : Nat} : index ∈ store.indexes ↔ ∃ row, store.row index = .ok row := by
  simp only [indexes, Std.TreeMap.mem_keys, mem_rows_iff]

theorem indexes_pairwise (store : Store τ) : store.indexes.Pairwise (· < ·) := by
  have ordered := Std.TreeMap.ordered_keys (t := store.rows)
  simpa only [indexes, Nat.compare_eq_lt] using ordered

theorem length_indexes (store : Store τ) : store.indexes.length = store.rowCount :=
  Std.TreeMap.length_keys

/-- There is only one ascending list of the indexes that lead to a row. -/
theorem indexes_eq {list : List Nat} (ascending : list.Pairwise (· < ·))
    (same : ∀ index, index ∈ list ↔ ∃ row, store.row index = .ok row) : store.indexes = list := by
  refine (indexes_pairwise store).eq_of_mem_iff ascending fun index => ?_
  rw [mem_indexes, same]

theorem row_eq_ok_withRow {index : Nat} (fresh : index ∉ store.rows) (position : Nat)
    {added : Row τ} {i : Nat} {row : Row τ} :
    (store.withRow position index added).row i = .ok row ↔
      store.row i = .ok row ∨ index = i ∧ row = { added with index := index } := by
  rw [row_eq_ok, row_eq_ok]
  by_cases same : index = i
  · subst same
    have free : store.rows[index]? = none := Std.TreeMap.getElem?_eq_none fresh
    rw [row_withRow, free]
    simp [eq_comm]
  · have apart : (store.withRow position index added).rows[i]? = store.rows[i]? := by
      simp [withRow, Std.TreeMap.getElem?_insert, same]
    rw [apart]
    simp [same]

theorem Extends.rowCount_le [DecidableEq τ] {store' : Store τ} (h : store.Extends store') :
    store.rowCount ≤ store'.rowCount := by
  have distinct : store.indexes.Nodup := (indexes_pairwise store).imp Nat.ne_of_lt
  have included : store.indexes ⊆ store'.indexes := by
    intro index member
    obtain ⟨row, found⟩ := mem_indexes.mp member
    exact mem_indexes.mpr ⟨row, h.row found⟩
  rw [← length_indexes, ← length_indexes]
  exact (List.subperm_of_subset distinct included).length_le

/-- The row that was registered is found, and the others are as before. -/
theorem row_eq_ok_of_addRowAt [DecidableEq τ] [TableTag τ] {store' : Store τ} {index : Nat}
    {added : Row τ} {u : Unit} (run : addRowAt index added store = .ok u store') {i : Nat}
    {row : Row τ} :
    store'.row i = .ok row ↔
      store.row i = .ok row ∨ index = i ∧ row = { added with index := index } := by
  obtain ⟨fresh, position, -, -, -, rfl⟩ := addRowAt_eq_ok.mp run
  exact row_eq_ok_withRow fresh position

end Indexes

/-- How many indexes are given before this one. -/
def turn (index : Nat) : Nat := (index + (2 ^ 32 - 1)) % 2 ^ 32

theorem turn_next {count : Nat} (room : count < 2 ^ 32) : turn ((count + 1) % 2 ^ 32) = count := by
  unfold turn
  omega

theorem turn_inj {i j : Nat} (hi : i < 2 ^ 32) (hj : j < 2 ^ 32) (same : turn i = turn j) :
    i = j := by
  unfold turn at same
  omega

theorem turn_lt (index : Nat) : turn index < 2 ^ 32 :=
  Nat.mod_lt _ (by decide)

/-- The rows have the first indexes there are, and the next index is known as
long as one is free. -/
structure Numbered (store : Store τ) : Prop where
  taken : ∀ index, index ∈ store.rows ↔ index < 2 ^ 32 ∧ turn index < store.rowCount
  bound : store.rowCount ≤ 2 ^ 32
  next : store.rowCount < 2 ^ 32 → store.minted = store.rowCount

theorem numbered_empty : ({} : Store τ).Numbered := by
  refine ⟨fun index => ?_, Nat.zero_le _, fun _ => rfl⟩
  constructor
  · intro h
    exact (Std.TreeMap.not_mem_emptyc h).elim
  · intro h
    exact absurd h.2 (Nat.not_lt_zero _)

/-- The indexes are given from one on. -/
theorem Numbered.indexes_eq {store : Store τ} (h : store.Numbered)
    (room : store.rowCount < 2 ^ 32) : store.indexes = List.range' 1 store.rowCount := by
  refine Store.indexes_eq List.pairwise_lt_range' fun index => ?_
  rw [← mem_rows_iff, h.taken, List.mem_range'_1, turn]
  omega

section Rows

variable [DecidableEq τ]

/-- Whether a row has a table in the store, and a cell for each column of it. -/
def Accepts (store : Store τ) (row : Row τ) : Prop :=
  ∃ position, ∃ bound : position < store.tables.size,
    store.position? row.table = some position ∧
      row.cells.length = store.tables[position].columns.length

theorem accepts_iff {store : Store τ} {row : Row τ} {columns : τ → List (Column τ)}
    (shaped : ∀ table ∈ store.tables, table.columns = columns table.tag) :
    store.Accepts row ↔
      store.containsTable row.table ∧ row.cells.length = (columns row.table).length := by
  constructor
  · intro h
    obtain ⟨position, bound, found, len⟩ := h
    obtain ⟨_, same, -⟩ := Array.findIdx?_eq_some_iff_getElem.mp found
    rw [shaped _ (Array.getElem_mem bound), of_decide_eq_true same] at len
    exact ⟨containsTable_of_position? found, len⟩
  · intro h
    obtain ⟨present, len⟩ := h
    obtain ⟨position, bound, found, same⟩ := position?_isSome present
    refine ⟨position, bound, found, ?_⟩
    rw [shaped _ (Array.getElem_mem bound), same, len]

variable [TableTag τ] {store store' : Store τ} {row : Row τ}

omit [DecidableEq τ] [TableTag τ] in
theorem Numbered.fresh (h : store.Numbered) (room : store.rowCount < 2 ^ 32) :
    (store.minted + 1) % 2 ^ 32 ∉ store.rows := by
  intro present
  obtain ⟨-, early⟩ := (h.taken _).mp present
  rw [h.next room, turn_next room] at early
  exact Nat.lt_irrefl _ early

/-- A row is added as long as there is an index for it. -/
theorem Numbered.exists_addRow (h : store.Numbered) (accepted : store.Accepts row)
    (room : store.rowCount < 2 ^ 32) : ∃ index store', addRow row store = .ok index store' := by
  obtain ⟨position, bound, found, len⟩ := accepted
  let index := (store.minted + 1) % 2 ^ 32
  refine ⟨index, withRow { store with minted := index } position index row, ?_⟩
  refine addRow_eq_ok.mpr ⟨rfl, addRowAt_eq_ok.mpr ⟨h.fresh room, ?_⟩⟩
  exact ⟨position, bound, found, len, rfl⟩

omit [DecidableEq τ] [TableTag τ] in
theorem rowCount_withRow {index : Nat} (fresh : index ∉ store.rows) (position : Nat) (row : Row τ) :
    (store.withRow position index row).rowCount = store.rowCount + 1 := by
  change (store.rows.insert index { row with index := index }).size = _
  rw [Std.TreeMap.size_insert]
  exact if_neg fresh

theorem Numbered.rowCount_lt (h : store.Numbered) {index : Nat}
    (added : addRow row store = .ok index store') : store.rowCount < 2 ^ 32 := by
  obtain ⟨rfl, added⟩ := addRow_eq_ok.mp added
  obtain ⟨fresh, -⟩ := addRowAt_eq_ok.mp added
  rcases Nat.lt_or_eq_of_le h.bound with room | full
  · exact room
  · refine (fresh ((h.taken _).mpr ⟨Nat.mod_lt _ (by decide), ?_⟩)).elim
    rw [full]
    exact turn_lt _

theorem of_addRowAt_eq_error {index : Nat} {e : TableError}
    (run : addRowAt index row store = .error e store') : store' = store := by
  unfold addRowAt at run
  split at run
  · cases run
    rfl
  · split at run
    · cases run
      rfl
    · dsimp only at run
      split at run
      · cases run
      · cases run
        rfl

/-- A row that was not added has used up an index. -/
theorem of_addRow_eq_error {e : TableError} (run : addRow row store = .error e store') :
    store' = { store with minted := (store.minted + 1) % 2 ^ 32 } := by
  rcases bind_eq_error.mp run with impossible | rest
  · cases impossible
  · obtain ⟨index, r, minted, rest⟩ := rest
    cases minted
    rcases bind_eq_error.mp rest with failed | rest
    · exact of_addRowAt_eq_error failed
    · obtain ⟨_, t, -, impossible⟩ := rest
      exact (pure_ne_error impossible).elim

/-- The store stays as it is, but for the next index, when none is free. -/
theorem Numbered.of_addRow_eq_error (h : store.Numbered) (accepted : store.Accepts row)
    {e : TableError} (run : Store.addRow row store = .error e store') :
    store'.Numbered ∧ store'.rowCount = store.rowCount := by
  have full : ¬store.rowCount < 2 ^ 32 := by
    intro room
    obtain ⟨index, r, added⟩ := h.exists_addRow accepted room
    rw [run] at added
    cases added
  cases Store.of_addRow_eq_error run
  exact ⟨⟨h.taken, h.bound, fun room => (full room).elim⟩, rfl⟩

theorem Numbered.addRow (h : store.Numbered) {index : Nat}
    (run : addRow row store = .ok index store') :
    store'.Numbered ∧ store'.rowCount = store.rowCount + 1 := by
  have room := h.rowCount_lt run
  obtain ⟨rfl, added⟩ := addRow_eq_ok.mp run
  obtain ⟨fresh, position, bound, found, len, rfl⟩ := addRowAt_eq_ok.mp added
  have count := rowCount_withRow fresh position row
  have same : rowCount { store with minted := (store.minted + 1) % 2 ^ 32 } = store.rowCount := rfl
  rw [same] at count
  refine ⟨⟨fun index => ?_, ?_, fun left => ?_⟩, count⟩
  · rw [count]
    change index ∈ store.rows.insert _ _ ↔ _
    rw [Std.TreeMap.mem_insert, h.taken, h.next room]
    have next := turn_next room
    constructor
    · intro member
      rcases member with new | old
      · rw [← Nat.compare_eq_eq.mp new, next]
        exact ⟨Nat.mod_lt _ (by decide), Nat.lt_succ_self _⟩
      · exact ⟨old.1, Nat.lt_succ_of_lt old.2⟩
    · intro early
      rcases Nat.lt_succ_iff_lt_or_eq.mp early.2 with old | new
      · exact .inr ⟨early.1, old⟩
      · refine .inl (Nat.compare_eq_eq.mpr (turn_inj (Nat.mod_lt _ (by decide)) early.1 ?_))
        rw [next, new]
  · rw [count]
    exact room
  · rw [count] at left ⊢
    change (store.minted + 1) % 2 ^ 32 = _
    rw [h.next room, Nat.mod_eq_of_lt left]

end Rows

end ClassFormat.Store
