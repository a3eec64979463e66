import ClassFormat.Proofs.Table.Keeps

/-!
# Row stores that are one row apart

Two stores may have the same tables and rows, apart from one row that has other
cells in the second one. What is registered after that row goes into both of
them alike.
-/
namespace ClassFormat

variable {τ : Type} {old new : Row τ}

/-- The rows are the same, or the two that are exchanged. -/
inductive Row.Swapped (old new : Row τ) : Row τ → Row τ → Prop
  | same (row : Row τ) : Swapped old new row row
  | swapped : Swapped old new old new

/-- The tables are the same, one row apart. -/
structure Table.Beside (old new : Row τ) (table other : Table τ) : Prop where
  tag : other.tag = table.tag
  columns : other.columns = table.columns
  rows : List.Forall₂ (Row.Swapped old new) table.rows.toList other.rows.toList

theorem Table.Beside.refl (table : Table τ) : Table.Beside old new table table :=
  ⟨rfl, rfl, List.forall₂_same.mpr fun row _ => .same row⟩

theorem Table.Beside.push {table other : Table τ} (h : Table.Beside old new table other)
    {row row' : Row τ} (rows : Row.Swapped old new row row') :
    Table.Beside old new (table.push row) (other.push row') := by
  refine ⟨h.tag, h.columns, ?_⟩
  simp only [Table.push, Array.toList_push]
  exact List.rel_append h.rows (.cons rows .nil)

namespace Store

/-- The second store has another row under an index, with the same tables and
rows otherwise. -/
structure Beside (old new : Row τ) (store other : Store τ) : Prop where
  index : new.index = old.index
  tables : List.Forall₂ (Table.Beside old new) store.tables.toList other.tables.toList
  held : store.rows[old.index]? = some old
  replaced : other.rows[old.index]? = some new
  others : ∀ i, i ≠ old.index → other.rows[i]? = store.rows[i]?
  minted : other.minted = store.minted

variable [DecidableEq τ]

theorem position?_eq (store : Store τ) (tag : τ) :
    store.position? tag = store.tags.findIdx? fun other => other = tag := by
  obtain ⟨⟨tables⟩, rows, minted⟩ := store
  simp [position?, tags, List.findIdx?_map, Function.comp_def]

namespace Beside

variable {store other later : Store τ}

omit [DecidableEq τ] in
theorem mem_iff (h : store.Beside old new other) (i : Nat) : i ∈ other.rows ↔ i ∈ store.rows := by
  simp only [Std.TreeMap.mem_iff_isSome_getElem?]
  by_cases here : i = old.index
  · simp [here, h.held, h.replaced]
  · rw [h.others i here]

omit [DecidableEq τ] in
theorem tags (h : store.Beside old new other) : other.tags = store.tags := by
  unfold Store.tags
  have tables := h.tables
  generalize store.tables.toList = list at tables
  generalize other.tables.toList = list' at tables
  induction tables with
  | nil => rfl
  | cons first _ ih => simp [first.tag, ih]

theorem position? (h : store.Beside old new other) (tag : τ) :
    other.position? tag = store.position? tag := by
  rw [position?_eq, position?_eq, h.tags]

theorem containsTable (h : store.Beside old new other) (tag : τ) :
    other.containsTable tag = store.containsTable tag := by
  rw [Bool.eq_iff_iff, containsTable_iff, containsTable_iff, h.tags]

theorem ensureTable (h : store.Beside old new other) (tag : τ) (columns : List (Column τ)) :
    (store.ensureTable tag columns).Beside old new (other.ensureTable tag columns) := by
  unfold Store.ensureTable
  rw [h.containsTable]
  split
  · exact h
  · refine ⟨h.index, ?_, h.held, h.replaced, h.others, h.minted⟩
    simp only [Array.toList_push]
    exact List.rel_append h.tables (.cons (.refl _) .nil)

omit [DecidableEq τ] in
theorem columns (h : store.Beside old new other) {position : Nat}
    (bound : position < store.tables.size) :
    ∃ bound' : position < other.tables.size,
      other.tables[position].columns = store.tables[position].columns := by
  have len : store.tables.toList.length = other.tables.toList.length := h.tables.length_eq
  simp only [Array.length_toList] at len
  refine ⟨len ▸ bound, ?_⟩
  have here := List.forall₂_iff_get.mp h.tables
  exact (here.2 position (by simpa using bound) (by simpa [← len] using bound)).columns

end Beside

theorem forall₂_modify {α : Type} {R : α → α → Prop} {f g : α → α} {list list' : List α}
    (h : List.Forall₂ R list list') (both : ∀ a b, R a b → R (f a) (g b)) (position : Nat) :
    List.Forall₂ R (list.modify position f) (list'.modify position g) := by
  induction h generalizing position with
  | nil => simp
  | cons first rest ih =>
      cases position with
      | zero => simpa using ⟨both _ _ first, rest⟩
      | succ position => simpa using ⟨first, ih position⟩

omit [DecidableEq τ] in
/-- Rows go to the same table, the two in question or one twice. -/
theorem tables_withRow_beside {store other : Store τ} {row row' : Row τ} {index : Nat}
    (tables : List.Forall₂ (Table.Beside old new) store.tables.toList other.tables.toList)
    (position : Nat)
    (rows : Row.Swapped old new { row with index := index } { row' with index := index }) :
    List.Forall₂ (Table.Beside old new) (store.withRow position index row).tables.toList
      (other.withRow position index row').tables.toList := by
  simp only [withRow, Array.toList_modify]
  exact forall₂_modify tables (fun _ _ beside => beside.push rows) position

omit [DecidableEq τ] in
theorem getElem?_withRow (store : Store τ) (position : Nat) {index i : Nat} (row : Row τ)
    (apart : index ≠ i) : (store.withRow position index row).rows[i]? = store.rows[i]? := by
  simp only [withRow, Std.TreeMap.getElem?_insert, Nat.compare_eq_eq, if_neg apart]

variable [TableTag τ] {store other later : Store τ} {row row' : Row τ} {index : Nat}

/-- Two rows of the same table are registered under the same index. -/
theorem exists_addRow_beside (table : row'.table = row.table)
    (cells : row'.cells.length = row.cells.length) (added : addRow row store = .ok index later) :
    ∃ other, addRow row' store = .ok index other ∧
      later.Beside { row with index := index } { row' with index := index } other := by
  obtain ⟨rfl, placed⟩ := addRow_eq_ok.mp added
  obtain ⟨fresh, position, bound, found, len, rfl⟩ := addRowAt_eq_ok.mp placed
  refine ⟨_, addRow_eq_ok.mpr ⟨rfl, addRowAt_eq_ok.mpr
    ⟨fresh, position, bound, by rwa [table], cells.trans len, rfl⟩⟩, ?_⟩
  refine ⟨rfl, ?_, row_withRow _ position _ row, row_withRow _ position _ row', ?_, rfl⟩
  · exact tables_withRow_beside (List.forall₂_same.mpr fun table _ => .refl table) position .swapped
  · intro i apart
    rw [getElem?_withRow _ _ _ apart.symm, getElem?_withRow _ _ _ apart.symm]

/-- A row that is registered in the first store is registered in the second one,
under the same index. -/
theorem Beside.addRow (h : store.Beside old new other)
    (added : addRow row store = .ok index later) :
    ∃ later', Store.addRow row other = .ok index later' ∧ later.Beside old new later' := by
  obtain ⟨rfl, placed⟩ := addRow_eq_ok.mp added
  obtain ⟨fresh, position, bound, found, len, rfl⟩ := addRowAt_eq_ok.mp placed
  obtain ⟨bound', columns⟩ := h.columns bound
  have apart : (store.minted + 1) % 2 ^ 32 ≠ old.index := by
    intro same
    have taken : old.index ∈ store.rows := by simp [Std.TreeMap.mem_iff_isSome_getElem?, h.held]
    exact fresh (same ▸ taken)
  refine ⟨_, addRow_eq_ok.mpr ⟨by rw [h.minted], addRowAt_eq_ok.mpr ⟨?_, position, bound', ?_, ?_,
    rfl⟩⟩, ?_⟩
  · exact mt (h.mem_iff _).mp fresh
  · exact (h.position? row.table).trans found
  · exact len.trans (congrArg List.length columns).symm
  · refine ⟨h.index, tables_withRow_beside h.tables position (.same _), ?_, ?_, ?_, rfl⟩
    · rw [getElem?_withRow _ _ _ apart, h.held]
    · rw [getElem?_withRow _ _ _ apart, h.replaced]
    · intro i different
      by_cases here : (store.minted + 1) % 2 ^ 32 = i
      · rw [← here, row_withRow, row_withRow]
      · rw [getElem?_withRow _ _ _ here, getElem?_withRow _ _ _ here, h.others i different]

end Store

end ClassFormat
