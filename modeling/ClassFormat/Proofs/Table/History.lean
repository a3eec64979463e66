import Mathlib.Algebra.BigOperators.Group.Finset.Basic
import Mathlib.Data.Finmap
import Mathlib.Data.Finset.Sort
import ClassFormat.Proofs.Table.Keeps

/-!
# Row stores as finite maps

A history is a store with what its callers can know of it: the rows they have
registered, in order, by index and by place. The store answers as the finite
map of the registered rows does, on every way that leads to a row: by its index,
by its place, by a search of its table and by a reference.
-/
namespace ClassFormat.Store

variable {τ : Type}

/-- A call that changes a store, with its arguments. -/
inductive Operation (τ : Type) where
  | addTable (tag : τ) (columns : List (Column τ))
  | addRow (row : Row τ)
  | addRowAt (index : Nat) (row : Row τ)

/-- What callers know of a store. A place is the tag of a table and a position
in it. -/
structure History (τ : Type) where
  store : Store τ := {}
  registered : List (Row τ) := []
  map : Finmap fun _ : Nat => Row τ := ∅
  places : Finmap fun _ : Nat => τ × Nat := ∅

variable [DecidableEq τ] [TableTag τ]

theorem addTable_eq_ok {store later : Store τ} {tag : τ} {columns : List (Column τ)} {u : Unit} :
    addTable tag columns store = .ok u later ↔
      ¬store.containsTable tag ∧ later = store.withTable tag columns := by
  unfold addTable
  split
  next taken => simp [taken]
  next free => simp [free, withTable, eq_comm]

theorem of_addTable_eq_error {store later : Store τ} {tag : τ} {columns : List (Column τ)}
    {e : TableError} (failed : addTable tag columns store = .error e later) : later = store := by
  unfold addTable at failed
  split at failed
  · cases failed
    rfl
  · cases failed

namespace Operation

/-- The row that the call has registered, if it is a call for rows. -/
def run : Operation τ → EStateM TableError (Store τ) (Option (Row τ))
  | addTable tag columns => do
    let table ← ofExcept (Table.make tag columns)
    Store.addTable table.tag table.columns
    return none
  | addRow row => do
    let index ← Store.addRow row
    return some { row with index := index }
  | addRowAt index row => do
    Store.addRowAt index row
    return some { row with index := index }

variable {store later : Store τ} {operation : Operation τ}

/-- A call that fails has used up an index at most. -/
theorem of_error {e : TableError} (failed : operation.run store = .error e later) :
    ∃ minted, later = { store with minted := minted } := by
  cases operation with
  | addTable tag columns =>
      refine ⟨store.minted, ?_⟩
      rcases bind_eq_error.mp failed with failed | ⟨table, _, made, failed⟩
      · exact (ofExcept_eq_error.mp failed).2.symm
      · obtain ⟨-, rfl⟩ := ofExcept_eq_ok.mp made
        rcases bind_eq_error.mp failed with failed | ⟨_, _, -, impossible⟩
        · exact of_addTable_eq_error failed
        · exact (pure_ne_error impossible).elim
  | addRow row =>
      rcases bind_eq_error.mp failed with failed | ⟨_, _, -, impossible⟩
      · exact ⟨_, of_addRow_eq_error failed⟩
      · exact (pure_ne_error impossible).elim
  | addRowAt index row =>
      rcases bind_eq_error.mp failed with failed | ⟨_, _, -, impossible⟩
      · exact ⟨store.minted, of_addRowAt_eq_error failed⟩
      · exact (pure_ne_error impossible).elim

/-- A call that succeeds without a row has added a table. -/
theorem of_none (done : operation.run store = .ok none later) :
    ∃ tag columns, ¬store.containsTable tag ∧ later = store.withTable tag columns := by
  cases operation with
  | addTable tag columns =>
      obtain ⟨table, _, made, done⟩ := bind_eq_ok.mp done
      obtain ⟨-, rfl⟩ := ofExcept_eq_ok.mp made
      obtain ⟨_, _, added, done⟩ := bind_eq_ok.mp done
      obtain ⟨-, rfl⟩ := pure_eq_ok.mp done
      exact ⟨table.tag, table.columns, addTable_eq_ok.mp added⟩
  | addRow row =>
      obtain ⟨_, _, -, done⟩ := bind_eq_ok.mp done
      cases (pure_eq_ok.mp done).1
  | addRowAt index row =>
      obtain ⟨_, _, -, done⟩ := bind_eq_ok.mp done
      cases (pure_eq_ok.mp done).1

/-- A row that was registered has an index that was free, and a table. -/
theorem of_some {row : Row τ} (done : operation.run store = .ok (some row) later) :
    row.index ∉ store.rows ∧ ∃ minted position, store.position? row.table = some position ∧
      later = withRow { store with minted := minted } position row.index row := by
  cases operation with
  | addTable tag columns =>
      obtain ⟨_, _, -, done⟩ := bind_eq_ok.mp done
      obtain ⟨_, _, -, done⟩ := bind_eq_ok.mp done
      cases (pure_eq_ok.mp done).1
  | addRow row =>
      obtain ⟨index, _, added, done⟩ := bind_eq_ok.mp done
      obtain ⟨same, rfl⟩ := pure_eq_ok.mp done
      cases same
      obtain ⟨-, added⟩ := addRow_eq_ok.mp added
      obtain ⟨fresh, position, -, found, -, rfl⟩ := addRowAt_eq_ok.mp added
      exact ⟨fresh, index, position, found, rfl⟩
  | addRowAt index row =>
      obtain ⟨_, _, added, done⟩ := bind_eq_ok.mp done
      obtain ⟨same, rfl⟩ := pure_eq_ok.mp done
      cases same
      obtain ⟨fresh, position, -, found, -, rfl⟩ := addRowAt_eq_ok.mp added
      exact ⟨fresh, store.minted, position, found, rfl⟩

end Operation

namespace History

/-- The history after a row was registered at the end of its table. -/
def enter (history : History τ) (row : Row τ) (later : Store τ) : History τ where
  store := later
  registered := history.registered ++ [row]
  map := history.map.insert row.index row
  places := history.places.insert row.index (row.table, history.store.size row.table)

/-- The history after one more call. -/
def next (history : History τ) (operation : Operation τ) : History τ :=
  match operation.run history.store with
  | .ok none later => { history with store := later }
  | .ok (some row) later => history.enter row later
  | .error _ later => { history with store := later }

/-- The history of calls on a new store, failed or not. -/
def run (operations : List (Operation τ)) : History τ :=
  operations.foldl next {}

/-- The row of this index, found by its place. -/
def rowByPlace (history : History τ) (index : Nat) : Except TableError (Row τ) :=
  match (history.places.lookup index).bind history.store.rowAt? with
  | some row => .ok row
  | none => .error (.rowNotFound index)

theorem lookup_insert_eq_some {α : Type} {map : Finmap fun _ : Nat => α} {key : Nat} {value : α}
    (unknown : map.lookup key = none) {index : Nat} {other : α} :
    (map.insert key value).lookup index = some other ↔
      map.lookup index = some other ∨ key = index ∧ other = value := by
  by_cases same : key = index
  · subst same
    rw [Finmap.lookup_insert, unknown]
    simp [eq_comm]
  · rw [Finmap.lookup_insert_of_ne map (Ne.symm same)]
    simp [same]

/-- The store and what is known of it agree. -/
structure Consistent (history : History τ) : Prop where
  tags : (history.store.tables.toList.map Table.tag).Nodup
  row : ∀ index row, history.store.row index = .ok row ↔ history.map.lookup index = some row
  registered : ∀ index row,
    history.map.lookup index = some row ↔ row ∈ history.registered ∧ row.index = index
  apart : (history.registered.map Row.index).Nodup
  home : ∀ row ∈ history.registered, history.store.containsTable row.table
  listed : ∀ table ∈ history.store.tables,
    table.rows.toList = history.registered.filter fun row => row.table = table.tag
  placed : ∀ index,
    (history.places.lookup index).map history.store.rowAt? = (history.map.lookup index).map some

variable {history : History τ}

omit [TableTag τ] in
theorem consistent_empty : Consistent ({} : History τ) where
  tags := List.nodup_nil
  row index row := by simp [row_eq_ok]
  registered index row := by simp
  apart := List.nodup_nil
  home row h := by simp at h
  listed table h := by simp at h
  placed index := by simp

namespace Consistent

omit [TableTag τ] in
theorem mint (h : history.Consistent) (minted : Nat) :
    Consistent { history with store := { history.store with minted := minted } } :=
  ⟨h.tags, h.row, h.registered, h.apart, h.home, h.listed, h.placed⟩

omit [TableTag τ] in
/-- Places lead to the same rows in a larger store. -/
theorem placed_of_keeps (h : history.Consistent) {later : Store τ}
    (kept : history.store.Keeps later) (index : Nat) :
    (history.places.lookup index).map later.rowAt? = (history.map.lookup index).map some := by
  have here := h.placed index
  cases place : history.places.lookup index with
  | none => rw [← here, place, Option.map_none, Option.map_none]
  | some place' =>
      rw [place, Option.map_some] at here
      obtain ⟨row, known, found⟩ := Option.map_eq_some_iff.mp here.symm
      rw [known, Option.map_some, Option.map_some, kept.rowAt? found.symm]

omit [TableTag τ] in
theorem withTable (h : history.Consistent) {tag : τ} (columns : List (Column τ))
    (free : ¬history.store.containsTable tag) :
    Consistent { history with store := history.store.withTable tag columns } where
  tags := by
    rw [tags_withTable]
    refine List.nodup_append.mpr ⟨h.tags, List.nodup_singleton tag, ?_⟩
    rintro other member _ new rfl
    rw [List.mem_singleton] at new
    subst new
    exact free (containsTable_iff.mpr member)
  row := h.row
  registered := h.registered
  apart := h.apart
  home row member := by
    have home := h.home row member
    simp only [containsTable, Store.withTable, Array.any_push] at home ⊢
    rw [home, Bool.true_or]
  listed table member := by
    rcases Array.mem_push.mp member with old | rfl
    · exact h.listed table old
    · refine (List.filter_eq_nil_iff.mpr fun row member same => free ?_).symm
      have home := h.home row member
      rwa [of_decide_eq_true same] at home
  placed := h.placed_of_keeps (.withTable columns)

omit [TableTag τ] in
theorem ensureTable (h : history.Consistent) (tag : τ) (columns : List (Column τ)) :
    Consistent { history with store := history.store.ensureTable tag columns } := by
  unfold Store.ensureTable
  split
  next => exact h
  next free => exact h.withTable columns free

omit [TableTag τ] in
/-- The place of a row that is added to a table is its end. -/
theorem rowAt?_withRow (h : history.Consistent) {row : Row τ} {position : Nat}
    (found : history.store.position? row.table = some position) :
    (history.store.withRow position row.index row).rowAt?
      (row.table, history.store.size row.table) = some row := by
  obtain ⟨table, here⟩ := exists_table? (containsTable_of_position? found)
  have tag := (table_of_table? here).2
  rw [rowAt?, table?_withRow h.tags found, size, here]
  simp [tag, Table.push]

omit [TableTag τ] in
theorem lookup_eq_none (h : history.Consistent) {index : Nat}
    (fresh : index ∉ history.store.rows) : history.map.lookup index = none := by
  refine Option.eq_none_iff_forall_ne_some.mpr fun row known => fresh ?_
  exact mem_rows_iff.mpr ⟨row, (h.row _ row).mpr known⟩

omit [TableTag τ] in
theorem apart_append (h : history.Consistent) {row : Row τ}
    (unknown : history.map.lookup row.index = none) :
    ((history.registered ++ [row]).map Row.index).Nodup := by
  rw [List.map_append, List.map_singleton, List.nodup_append]
  refine ⟨h.apart, List.nodup_singleton _, ?_⟩
  rintro index member _ new rfl
  obtain ⟨other, old, same⟩ := List.mem_map.mp member
  have known := (h.registered index other).mpr ⟨old, same⟩
  rw [List.mem_singleton.mp new, unknown] at known
  cases known

omit [TableTag τ] in
theorem listed_withRow (h : history.Consistent) {row : Row τ} {position : Nat}
    (found : history.store.position? row.table = some position) {table : Table τ}
    (member : table ∈ (history.store.withRow position row.index row).tables) :
    table.rows.toList =
      (history.registered ++ [row]).filter fun row => row.table = table.tag := by
  rw [tables_withRow h.tags found] at member
  obtain ⟨before, old, rfl⟩ := Array.mem_map.mp member
  have listed := h.listed before old
  rw [List.filter_append]
  by_cases here : before.tag = row.table
  · simp [here, Table.push, listed]
  · simp [here, Ne.symm here, listed]

theorem enter (h : history.Consistent) {row : Row τ} {position : Nat}
    (fresh : row.index ∉ history.store.rows)
    (found : history.store.position? row.table = some position) :
    (history.enter row (history.store.withRow position row.index row)).Consistent := by
  have unknown := h.lookup_eq_none fresh
  have kept : history.store.Keeps (history.store.withRow position row.index row) :=
    .withRow h.tags fresh found
  refine ⟨?tags, ?row, ?registered, h.apart_append unknown, ?home,
    fun _ => h.listed_withRow found, ?placed⟩
  all_goals dsimp only [History.enter]
  case tags =>
    rw [tags_withRow h.tags found]
    exact h.tags
  case row =>
    intro index other
    rw [row_eq_ok_withRow fresh, h.row]
    exact (lookup_insert_eq_some unknown).symm
  case registered =>
    intro index other
    rw [lookup_insert_eq_some unknown, h.registered, List.mem_append, List.mem_singleton]
    constructor
    · rintro (old | ⟨rfl, rfl⟩)
      · exact ⟨.inl old.1, old.2⟩
      · exact ⟨.inr rfl, rfl⟩
    · rintro ⟨old | rfl, same⟩
      · exact .inl ⟨old, same⟩
      · exact .inr ⟨same, rfl⟩
  case home =>
    intro other member
    rw [containsTable_withRow]
    rcases List.mem_append.mp member with old | new
    · exact h.home other old
    · rw [List.mem_singleton.mp new]
      exact containsTable_of_position? found
  case placed =>
    intro index
    by_cases new : index = row.index
    · subst new
      rw [Finmap.lookup_insert, Finmap.lookup_insert, Option.map_some, Option.map_some,
        h.rowAt?_withRow found]
    · rw [Finmap.lookup_insert_of_ne _ new, Finmap.lookup_insert_of_ne _ new]
      exact h.placed_of_keeps kept index

/-- A row that was added under the next index is registered last. -/
theorem addRow (h : history.Consistent) {row : Row τ} {index : Nat} {later : Store τ}
    (run : Store.addRow row history.store = .ok index later) :
    (history.enter { row with index := index } later).Consistent ∧
      later.tags = history.store.tags := by
  obtain ⟨-, added⟩ := addRow_eq_ok.mp run
  obtain ⟨fresh, position, -, found, -, rfl⟩ := addRowAt_eq_ok.mp added
  have minted := h.mint index
  have entered (added : Row τ) (free : added.index ∉ history.store.rows)
      (home : history.store.position? added.table = some position) :=
    minted.enter free home
  exact ⟨entered { row with index := index } fresh found, tags_withRow minted.tags found index⟩

theorem next (h : history.Consistent) (operation : Operation τ) :
    (history.next operation).Consistent ∧ history.store.Keeps (history.next operation).store := by
  unfold History.next
  cases result : operation.run history.store with
  | ok made later =>
      cases made with
      | none =>
          obtain ⟨tag, columns, free, rfl⟩ := Operation.of_none result
          exact ⟨h.withTable columns free, .withTable columns⟩
      | some row =>
          obtain ⟨fresh, minted, position, found, rfl⟩ := Operation.of_some result
          have h' := h.mint minted
          have kept := Keeps.mint history.store minted
          exact ⟨h'.enter fresh found, kept.trans (.withRow h'.tags fresh found)⟩
  | error e later =>
      obtain ⟨minted, rfl⟩ := Operation.of_error result
      exact ⟨h.mint minted, .mint history.store minted⟩

theorem foldl (h : history.Consistent) (operations : List (Operation τ)) :
    (operations.foldl History.next history).Consistent ∧
      history.store.Keeps (operations.foldl History.next history).store := by
  induction operations generalizing history with
  | nil => exact ⟨h, .refl _⟩
  | cons operation operations ih =>
      obtain ⟨now, kept⟩ := h.next operation
      obtain ⟨afterwards, kept'⟩ := ih now
      exact ⟨afterwards, kept.trans kept'⟩

section Answers

variable (h : history.Consistent)

include h

omit [TableTag τ] in
theorem index_eq {index : Nat} {row : Row τ} (known : history.map.lookup index = some row) :
    row.index = index :=
  ((h.registered index row).mp known).2

omit [TableTag τ] in
theorem row_iff {index : Nat} {row : Row τ} :
    history.store.row index = .ok row ↔ row ∈ history.registered ∧ row.index = index := by
  rw [h.row, h.registered]

omit [TableTag τ] in
/-- The rows of a table are those that were registered in it. -/
theorem rowsOf_eq (tag : τ) :
    history.store.rowsOf tag = history.registered.filter fun row => row.table = tag := by
  unfold rowsOf
  cases found : history.store.table? tag with
  | some table =>
      obtain ⟨member, rfl⟩ := table_of_table? found
      exact h.listed table member
  | none =>
      refine (List.filter_eq_nil_iff.mpr fun row member same => ?_).symm
      obtain ⟨table, here⟩ := exists_table? (h.home row member)
      rw [of_decide_eq_true same, found] at here
      cases here

omit [TableTag τ] in
/-- The rows of the tables are all that were registered. -/
theorem mem_registered_iff {row : Row τ} :
    row ∈ history.registered ↔ ∃ table ∈ history.store.tables, row ∈ table.rows := by
  constructor
  · intro member
    obtain ⟨table, found⟩ := exists_table? (h.home row member)
    obtain ⟨present, same⟩ := table_of_table? found
    refine ⟨table, present, Array.mem_toList_iff.mp ?_⟩
    rw [h.listed table present, same]
    exact List.mem_filter.mpr ⟨member, decide_eq_true rfl⟩
  · rintro ⟨table, present, member⟩
    have inside := Array.mem_toList_iff.mpr member
    rw [h.listed table present] at inside
    exact List.mem_of_mem_filter inside

omit [TableTag τ] in
theorem eq_of_index_eq {row other : Row τ} (member : row ∈ history.registered)
    (member' : other ∈ history.registered) (same : row.index = other.index) : row = other := by
  have known := (h.registered _ row).mpr ⟨member, rfl⟩
  rw [same, (h.registered _ other).mpr ⟨member', rfl⟩, Option.some.injEq] at known
  exact known.symm

/-- A search of a table finds the rows that were registered in it. -/
theorem table_row_eq_ok {table : Table τ} (present : table ∈ history.store.tables) {index : Nat}
    {row : Row τ} :
    table.row index = .ok row ↔ history.map.lookup index = some row ∧ row.table = table.tag := by
  have listed (other : Row τ) :
      other ∈ table.rows ↔ other ∈ history.registered ∧ other.table = table.tag := by
    rw [← Array.mem_toList_iff, h.listed table present, List.mem_filter, decide_eq_true_eq]
  rw [h.registered]
  unfold Table.row
  constructor
  · intro answer
    split at answer
    next found =>
      cases answer
      obtain ⟨member, home⟩ := (listed row).mp (Array.mem_of_find?_eq_some found)
      have same := Array.find?_some found
      exact ⟨⟨member, of_decide_eq_true same⟩, home⟩
    next => cases answer
  · intro known
    obtain ⟨⟨member, rfl⟩, home⟩ := known
    have inside := (listed row).mpr ⟨member, home⟩
    split
    next other found =>
      have same := Array.find?_some found
      obtain ⟨member', -⟩ := (listed other).mp (Array.mem_of_find?_eq_some found)
      rw [h.eq_of_index_eq member' member (by simpa using same)]
    next missing =>
      have none := Array.find?_eq_none.mp missing row inside
      simp at none

theorem entry_eq_ok_iff {tag : τ} {index : Nat} {row : Row τ} :
    history.store.entry tag index = .ok row ↔
      history.map.lookup index = some row ∧ row.table = tag := by
  rw [entry_eq_ok, ← row_eq_ok, h.row]
  constructor
  · exact And.right
  · intro known
    obtain ⟨known, rfl⟩ := known
    exact ⟨h.home row ((h.registered index row).mp known).1, known, rfl⟩

/-- A reference to a table leads to what a search of the table finds, and fails
as the search does. -/
theorem entry_eq_search (tag : τ) (index : Nat) :
    history.store.entry tag index =
      (history.store.table tag >>= fun table => table.row index) := by
  unfold table
  cases found : history.store.table? tag with
  | none =>
      have absent : ¬history.store.containsTable tag := by
        intro present
        obtain ⟨table, here⟩ := exists_table? present
        rw [found] at here
        cases here
      exact if_neg absent
  | some table =>
      obtain ⟨member, rfl⟩ := table_of_table? found
      change _ = table.row index
      cases answer : table.row index with
      | ok row => exact h.entry_eq_ok_iff.mpr ((h.table_row_eq_ok member).mp answer)
      | error e =>
          cases other : history.store.entry table.tag index with
          | ok row =>
              rw [(h.table_row_eq_ok member).mpr (h.entry_eq_ok_iff.mp other)] at answer
              cases answer
          | error e' =>
              have present : history.store.containsTable table.tag :=
                Array.any_eq_true'.mpr ⟨table, member, by simp⟩
              rw [of_entry_eq_error present other, Table.of_row_eq_error answer]

omit [TableTag τ] in
theorem rowByPlace_eq (index : Nat) : history.rowByPlace index = history.store.row index := by
  have reached : (history.places.lookup index).bind history.store.rowAt? =
      history.map.lookup index := by
    have placed := h.placed index
    cases known : history.map.lookup index with
    | none =>
        rw [known, Option.map_none, Option.map_eq_none_iff] at placed
        rw [placed, Option.bind_none]
    | some row =>
        rw [known, Option.map_some] at placed
        obtain ⟨place, here, found⟩ := Option.map_eq_some_iff.mp placed
        rw [here, Option.bind_some, found]
  have stored : history.map.lookup index = history.store.rows[index]? := by
    ext row
    rw [← h.row, row_eq_ok]
  rw [rowByPlace, reached, stored]
  rfl

omit [TableTag τ] in
theorem indexes_perm : history.store.indexes.Perm (history.registered.map Row.index) := by
  refine (List.perm_ext_iff_of_nodup ?_ h.apart).mpr fun index => ?_
  · exact (indexes_pairwise history.store).imp Nat.ne_of_lt
  · rw [mem_indexes, List.mem_map]
    simp only [h.row, h.registered]

omit [TableTag τ] in
theorem rowCount_eq : history.store.rowCount = history.registered.length := by
  rw [← length_indexes, h.indexes_perm.length_eq, List.length_map]

omit [TableTag τ] in
theorem indexes_eq_sort : history.store.indexes = history.map.keys.sort (· ≤ ·) := by
  refine indexes_eq (Finset.sortedLT_sort _).pairwise fun index => ?_
  rw [Finset.mem_sort, Finmap.mem_keys, Finmap.mem_iff]
  simp only [h.row]

omit [TableTag τ] in
/-- Every row is counted in one table. -/
theorem sum_sizes :
    (history.store.tables.toList.map fun table => table.rows.size).sum =
      history.registered.length := by
  have sizes : (history.store.tables.toList.map fun table => table.rows.size) =
      (history.store.tables.toList.map Table.tag).map fun tag =>
        (history.registered.map Row.table).count tag := by
    rw [List.map_map]
    refine List.map_congr_left fun table member => ?_
    rw [Function.comp_apply, List.count_eq_countP, List.countP_map, List.countP_eq_length_filter,
      ← Array.length_toList, h.listed table (Array.mem_toList_iff.mp member)]
    rfl
  have homes : ∀ tag ∈ (history.registered.map Row.table : Multiset τ),
      tag ∈ (history.store.tables.toList.map Table.tag).toFinset := by
    intro tag member
    obtain ⟨row, here, rfl⟩ := List.mem_map.mp (Multiset.mem_coe.mp member)
    obtain ⟨table, found⟩ := exists_table? (h.home row here)
    obtain ⟨present, same⟩ := table_of_table? found
    exact List.mem_toFinset.mpr (List.mem_map.mpr ⟨table, Array.mem_toList_iff.mpr present, same⟩)
  rw [sizes, ← List.sum_toFinset _ h.tags, ← List.length_map Row.table]
  simpa only [Multiset.coe_count, Multiset.coe_card] using Multiset.sum_count_eq_card homes

end Answers

end Consistent

/-- The store answers as the finite map of the registered rows does. -/
structure Refines (history : History τ) : Prop where
  row : ∀ index row, history.store.row index = .ok row ↔ history.map.lookup index = some row
  index : ∀ index row, history.map.lookup index = some row → row.index = index
  registered : ∀ row, row ∈ history.registered ↔ history.map.lookup row.index = some row
  place : ∀ index, history.store.row index = history.rowByPlace index
  search : ∀ tag index row,
    (history.store.table tag >>= fun table => table.row index) = .ok row ↔
      history.map.lookup index = some row ∧ row.table = tag
  typed : ∀ tag index, history.store.resolve (.typed tag index) =
    (history.store.table tag >>= fun table => table.row index)
  untyped : ∀ index, history.store.resolve (.untyped index) = history.store.row index
  indexes : history.store.indexes = history.map.keys.sort (· ≤ ·)
  ascending : history.store.indexes.Pairwise (· < ·)
  rowCount : history.store.rowCount = history.map.keys.card
  sizes : history.store.rowCount =
    (history.store.tables.toList.map fun table => table.rows.size).sum
  order : ∀ table ∈ history.store.tables,
    table.rows.toList = history.registered.filter fun row => row.table = table.tag

theorem Consistent.refines (h : history.Consistent) : history.Refines where
  row := h.row
  index _ _ known := h.index_eq known
  registered row := by
    rw [h.registered]
    simp
  place index := (h.rowByPlace_eq index).symm
  search tag index row := by rw [← h.entry_eq_search, h.entry_eq_ok_iff]
  typed := h.entry_eq_search
  untyped _ := rfl
  indexes := h.indexes_eq_sort
  ascending := indexes_pairwise history.store
  rowCount := by rw [← length_indexes, h.indexes_eq_sort, Finset.length_sort]
  sizes := by rw [h.sum_sizes, h.rowCount_eq]
  order := h.listed

/-- After any calls the store is the map of the rows that they have registered,
and it stays so: what it has is kept by all later calls. -/
theorem run_refines (operations later : List (Operation τ)) :
    (run operations).Refines ∧
      (run operations).store.Keeps (run (operations ++ later)).store := by
  obtain ⟨now, -⟩ := consistent_empty.foldl operations
  obtain ⟨-, kept⟩ := now.foldl later
  refine ⟨now.refines, ?_⟩
  rw [run, run, List.foldl_append]
  exact kept

end History

end ClassFormat.Store
