import ClassFormat.Proofs.Constant.Prefix
import ClassFormat.Proofs.Constant.Views
import ClassFormat.Proofs.Table.History

/-!
# Slots of a constant pool

The rows of a pool stand in its slots one behind the other, from slot one on.
A wide constant leaves the slot behind it empty. Reading ends when no slot is
left, so the only slot outside of the pool that may be used up is the second
one of a wide constant in the last slot.
-/
namespace ClassFormat.Constant

/-- Rows from one slot to another, each in the slot that the widths of those in
front of it lead to. -/
inductive Laid : Nat → List (Row Tag) → Nat → Prop
  | nil {slot : Nat} : Laid slot [] slot
  | cons {slot stop : Nat} {row : Row Tag} {rows : List (Row Tag)} :
      row.index = slot → Laid (slot + row.table.width) rows stop → Laid slot (row :: rows) stop

theorem Tag.width_eq (tag : Tag) : tag.width = 1 + if tag.isWide then 1 else 0 := by
  unfold width
  split <;> rfl

theorem Tag.isWide_iff (tag : Tag) : tag.isWide ↔ tag = .long ∨ tag = .double := by
  cases tag <;> decide

theorem countP_isWide (rows : List (Row Tag)) :
    (rows.countP fun row => row.table.isWide) =
      (rows.countP fun row => row.table = .long) + rows.countP fun row => row.table = .double := by
  induction rows with
  | nil => rfl
  | cons row rows ih =>
      rw [List.countP_cons, List.countP_cons, List.countP_cons, ih]
      cases row.table <;> simp [Tag.isWide] <;> omega

namespace Laid

variable {slot stop : Nat} {row : Row Tag} {rows : List (Row Tag)}

theorem append_singleton (laid : Laid slot rows stop) (next : row.index = stop) :
    Laid slot (rows ++ [row]) (stop + row.table.width) := by
  induction laid with
  | nil => exact .cons next .nil
  | cons here _ ih => exact .cons here (ih next)

theorem stop_eq (laid : Laid slot rows stop) :
    stop = slot + rows.length + rows.countP fun row => row.table.isWide := by
  induction laid with
  | nil => simp
  | @cons _ _ row _ _ _ ih =>
      have width := row.table.width_eq
      rw [ih, List.length_cons, List.countP_cons]
      omega

theorem bounds (laid : Laid slot rows stop) (member : row ∈ rows) :
    slot ≤ row.index ∧ row.index + row.table.width ≤ stop := by
  induction laid with
  | nil => simp at member
  | cons here rest ih =>
      have reached := rest.stop_eq
      rcases List.mem_cons.mp member with rfl | later
      · omega
      · have behind := ih later
        omega

/-- Every row stands in front of those that were added later. -/
theorem ascending (laid : Laid slot rows stop) :
    rows.Pairwise fun row other => row.index < other.index := by
  induction laid with
  | nil => exact .nil
  | @cons _ _ row _ here rest ih =>
      have wide := width_pos row.table
      refine List.pairwise_cons.mpr ⟨fun other later => ?_, ih⟩
      have behind := rest.bounds later
      omega

theorem exists_first (laid : Laid slot rows stop) (inside : slot < stop) :
    ∃ row ∈ rows, row.index = slot := by
  cases laid with
  | nil => exact (Nat.lt_irrefl _ inside).elim
  | cons here _ => exact ⟨_, List.mem_cons_self, here⟩

/-- A slot is empty if the constant in front of it is wide, and only then. -/
theorem taken_iff (laid : Laid slot rows stop) {i : Nat} (behind : slot < i) (inside : i < stop) :
    (∃ row ∈ rows, row.index = i) ↔ ¬∃ row ∈ rows, row.index + 1 = i ∧ row.table.isWide := by
  induction laid with
  | nil => omega
  | @cons slot stop row rows here rest ih =>
      have width := row.table.width_eq
      simp only [List.exists_mem_cons_iff]
      rcases Nat.lt_trichotomy i (slot + row.table.width) with skipped | rfl | later
      · have wide : row.table.isWide := by
          by_contra narrow
          rw [if_neg narrow] at width
          omega
        have empty : ¬∃ other ∈ rows, other.index = i := by
          rintro ⟨other, member, same⟩
          have bounds := rest.bounds member
          omega
        rw [if_pos wide] at width
        have before : row.index + 1 = i := by omega
        have apart : row.index ≠ i := by omega
        simp [empty, before, wide, apart]
      · have first := rest.exists_first inside
        have narrow : ¬(row.index + 1 = slot + row.table.width ∧ row.table.isWide) := by
          rintro ⟨before, wide⟩
          rw [if_pos wide] at width
          omega
        have none : ¬∃ other ∈ rows,
            other.index + 1 = slot + row.table.width ∧ other.table.isWide := by
          rintro ⟨other, member, before, -⟩
          have bounds := rest.bounds member
          omega
        simp [first, narrow, none]
      · have apart : row.index ≠ i := by omega
        have far : row.index + 1 ≠ i := by omega
        simp [ih later inside, apart, far]

/-- Rows that begin in front of a slot end there at the latest, unless the last
one is wide and begins right in front of it. -/
theorem stop_le {limit : Nat} (laid : Laid slot rows stop) (start : slot ≤ limit)
    (inside : ∀ row ∈ rows, row.index < limit) :
    stop ≤ limit ∨
      stop = limit + 1 ∧ ∃ row ∈ rows, row.index + 1 = limit ∧ row.table.isWide := by
  induction laid with
  | nil => exact .inl start
  | @cons slot stop row rows here rest ih =>
      obtain ⟨first, others⟩ := List.forall_mem_cons.mp inside
      have width := row.table.width_eq
      rcases Nat.lt_or_ge limit (slot + row.table.width) with across | fits
      · have wide : row.table.isWide := by
          by_contra narrow
          rw [if_neg narrow] at width
          omega
        rw [if_pos wide] at width
        cases rest with
        | nil => exact .inr ⟨by omega, row, List.mem_cons_self, by omega, wide⟩
        | cons next _ =>
            have beyond := others _ List.mem_cons_self
            omega
      · rcases ih fits others with done | ⟨beyond, last, member, wide⟩
        · exact .inl done
        · exact .inr ⟨beyond, last, List.mem_cons_of_mem row member, wide⟩

end Laid

namespace Pool

variable {source : Source} {count : Nat}

/-- Cells that are read do not change the store. -/
theorem mapM_readCell_store (source : Source) (columns : List (Column Tag)) :
    Always (fun s t : Progress => s.store = t.store) (columns.mapM (readCell source)) := by
  have law : Evolution fun s t : Progress => s.store = t.store :=
    ⟨fun _ => rfl, fun h k => h.trans k⟩
  refine .mapM law (fun column => ?_) columns
  rw [readCell_eq]
  have lifted {α : Type} (result : Except DecodingError α) :
      Always (fun s t : Progress => s.store = t.store) (ofExcept result) := by
    intro s
    cases result <;> rfl
  refine .bind law (fun _ => rfl) fun offset => ?_
  refine .bind law (lifted _) fun cell => ?_
  exact .bind law (fun _ => rfl) fun _ => .pure law cell

/-- An entry that was read is registered in its slot with the cells that were read,
and nothing else is. -/
theorem exists_addRowAt_of_readEntry {s t : Progress} (stocked : Stocked s.store) {slot : Nat}
    {tag : Tag} (run : readEntry source slot s = .ok tag t) :
    ∃ cells before behind, tag.columns.mapM (readCell source) before = .ok cells behind ∧
      Store.addRowAt slot ⟨tag, slot, cells⟩ s.store = .ok () t.store := by
  obtain ⟨_, _, start, run⟩ := bind_eq_ok.mp run
  obtain ⟨-, rfl⟩ := Reader.currentOffset_eq_ok.mp start
  obtain ⟨code, _, first, run⟩ := bind_eq_ok.mp run
  obtain ⟨-, rfl⟩ := ofExcept_eq_ok.mp first
  cases found : Tag.ofCode? code with
  | none =>
      rw [found] at run
      exact (throw_ne_ok run).elim
  | some other =>
      rw [found] at run
      obtain ⟨_, _, moved, run⟩ := bind_eq_ok.mp run
      obtain rfl := advance_eq_ok.mp moved
      obtain ⟨_, _, row, run⟩ := bind_eq_ok.mp run
      obtain ⟨rfl, rfl⟩ := pure_eq_ok.mp run
      have row : readRow source slot other ⟨saturate (s.offset + 1), s.store, s.log⟩ = .ok _ _ := row
      rw [readRow_eq (s := ⟨saturate (s.offset + 1), s.store, s.log⟩) stocked] at row
      obtain ⟨cells, r, read, row⟩ := bind_eq_ok.mp row
      have same := mapM_readCell_store source other.columns
        ⟨saturate (s.offset + 1), s.store, s.log⟩
      rw [stateAfter_of_ok read] at same
      obtain ⟨_, _, noted, stored⟩ := bind_eq_ok.mp row
      obtain rfl := Reader.note_eq_ok.mp noted
      obtain ⟨added, -⟩ := Reader.onStore_eq_ok.mp stored
      dsimp only at same added
      rw [← same] at added
      exact ⟨cells, _, r, read, added⟩

/-- What is known of a pool while it is read: its rows stand in the slots from
one to the next one to be read. -/
structure Lined (count : Nat) (history : Store.History Tag) (next : Nat) : Prop where
  consistent : history.Consistent
  laid : Laid 1 history.registered next
  inside : ∀ row ∈ history.registered, row.index < count
  stocked : Stocked history.store
  tags : history.store.tags = Tag.all

theorem lined_emptyStore (count : Nat) : Lined count { store := emptyStore } 1 := by
  have filled (tags : List Tag) (store : Store Tag)
      (h : Store.History.Consistent { store := store }) :
      Store.History.Consistent
        { store := tags.foldl (fun store tag => store.ensureTable tag tag.columns) store } := by
    induction tags generalizing store with
    | nil => exact h
    | cons tag tags ih => exact ih _ (h.ensureTable tag tag.columns)
  have tags : emptyStore.tags = Tag.all := by decide +kernel
  exact ⟨filled Tag.all {} Store.History.consistent_empty, .nil, by simp, stocked_emptyStore, tags⟩

/-- An entry is laid behind the others. -/
theorem Lined.readEntry {history : Store.History Tag} {next : Nat} (lined : Lined count history next)
    (inside : next < count) {s t : Progress} (held : history.store = s.store) {tag : Tag}
    (run : Pool.readEntry source next s = .ok tag t) :
    ∃ later : Store.History Tag, later.store = t.store ∧ Lined count later (next + tag.width) := by
  have stocked : Stocked s.store := held ▸ lined.stocked
  obtain ⟨cells, -, -, -, added⟩ := exists_addRowAt_of_readEntry stocked run
  obtain ⟨fresh, position, -, found, -, same⟩ := Store.addRowAt_eq_ok.mp added
  let row : Row Tag := ⟨tag, next, cells⟩
  rw [← held] at fresh found same
  have entered : (history.enter row (history.store.withRow position next row)).Consistent :=
    lined.consistent.enter fresh found
  rw [← same] at entered
  refine ⟨history.enter row t.store, rfl, entered, lined.laid.append_singleton rfl, ?_,
    stocked.of_addRowAt added, ?_⟩
  · intro other member
    rcases List.mem_append.mp member with old | new
    · exact lined.inside other old
    · rw [List.mem_singleton.mp new]
      exact inside
  · change t.store.tags = _
    rw [same, ← lined.tags]
    exact Store.tags_withRow lined.consistent.tags found next

/-- Entries are read until no slot of the pool is left. -/
theorem Lined.readEntries {left : Nat} :
    ∀ {history : Store.History Tag} {next : Nat} {s t : Progress}, Lined count history next →
      history.store = s.store → count - next = left →
      Pool.readEntries source next left s = .ok () t →
      ∃ later : Store.History Tag, ∃ stop, later.store = t.store ∧ Lined count later stop ∧
        count ≤ stop := by
  -- Wide entries use up two slots, so the recursion is on all smaller numbers of slots.
  induction left using Nat.strongRecOn with
  | ind left ih =>
      intro history next s t lined held slots run
      cases left with
      | zero =>
          obtain ⟨-, rfl⟩ := pure_eq_ok.mp run
          exact ⟨history, next, held, lined, by omega⟩
      | succ left =>
          rw [readEntries_succ] at run
          obtain ⟨tag, r, first, others⟩ := bind_eq_ok.mp run
          have wide := width_pos tag
          obtain ⟨later, held', lined'⟩ := lined.readEntry (by omega) held first
          exact ih _ (by omega) lined' held' (by omega) others

/-- A pool that was read has its rows laid over all of its slots. -/
theorem exists_lined_of_read {start : Nat} {pool : Pool}
    (ok : (read source count start).result = .ok pool) :
    ∃ history : Store.History Tag, ∃ stop, history.store = pool.store ∧
      Lined count history stop ∧ count ≤ stop := by
  obtain ⟨t, run, -, rfl⟩ := exists_run_of_read ok
  exact (lined_emptyStore count).readEntries rfl rfl run

/-- Whether there is a constant of eight bytes in a slot, which takes the next
one, too. -/
def WideAt (pool : Pool) (slot : Nat) : Prop :=
  ∃ row, pool.get slot = .ok row ∧ (row.table = .long ∨ row.table = .double)

/-- How the slots of a pool are taken. -/
structure Slotted (pool : Pool) (count : Nat) : Prop where
  outside : ∀ slot, slot = 0 ∨ count ≤ slot → pool.get slot = .error (.rowNotFound slot)
  first : 2 ≤ count → ∃ row, pool.get 1 = .ok row
  following : ∀ slot, 2 ≤ slot → slot < count →
    ((∃ row, pool.get slot = .ok row) ↔ ¬pool.WideAt (slot - 1))
  phantom : ∀ slot, 2 ≤ slot → slot < count → pool.WideAt (slot - 1) →
    pool.get slot = .error (.rowNotFound slot)
  index : ∀ slot row, pool.get slot = .ok row → row.index = slot
  tables : pool.store.tags = Tag.all
  ascending : ∀ table ∈ pool.store.tables,
    table.rows.toList.Pairwise fun row other => row.index < other.index
  entry : ∀ tag slot row,
    pool.entry tag slot = .ok row ↔ pool.get slot = .ok row ∧ row.table = tag
  search : ∀ tag slot,
    pool.entry tag slot = (pool.store.table tag >>= fun table => table.row slot)

theorem get_eq_error {pool : Pool} {slot : Nat} (empty : ¬∃ row, pool.get slot = .ok row) :
    pool.get slot = .error (.rowNotFound slot) := by
  unfold get Store.row at empty ⊢
  split
  next row found =>
    rw [found] at empty
    exact (empty ⟨row, rfl⟩).elim
  next => rfl

namespace Lined

variable {history : Store.History Tag} {stop : Nat} {pool : Pool}
  (lined : Lined count history stop) (held : history.store = pool.store)

include lined held

theorem get_eq_ok {slot : Nat} {row : Row Tag} :
    pool.get slot = .ok row ↔ row ∈ history.registered ∧ row.index = slot := by
  rw [get, ← held, lined.consistent.row, lined.consistent.registered]

theorem exists_get_iff {slot : Nat} :
    (∃ row, pool.get slot = .ok row) ↔ ∃ row ∈ history.registered, row.index = slot :=
  exists_congr fun _ => lined.get_eq_ok held

theorem wideAt_iff {slot : Nat} :
    pool.WideAt slot ↔ ∃ row ∈ history.registered, row.index = slot ∧ row.table.isWide := by
  unfold WideAt
  simp only [lined.get_eq_ok held, Tag.isWide_iff, and_assoc]

theorem following {slot : Nat} (reached : count ≤ stop) (behind : 2 ≤ slot)
    (inside : slot < count) :
    (∃ row, pool.get slot = .ok row) ↔ ¬pool.WideAt (slot - 1) := by
  have before (row : Row Tag) : row.index = slot - 1 ↔ row.index + 1 = slot := by omega
  rw [lined.exists_get_iff held, lined.wideAt_iff held]
  simp only [before]
  exact lined.laid.taken_iff behind (Nat.lt_of_lt_of_le inside reached)

theorem slotted (reached : count ≤ stop) : pool.Slotted count where
  outside slot apart := by
    refine get_eq_error fun taken => ?_
    obtain ⟨row, member, rfl⟩ := (lined.exists_get_iff held).mp taken
    have bounds := lined.laid.bounds member
    have inside := lined.inside row member
    omega
  first some := (lined.exists_get_iff held).mpr (lined.laid.exists_first (by omega))
  following slot := lined.following held reached
  phantom slot behind inside wide :=
    get_eq_error fun taken => (lined.following held reached behind inside).mp taken wide
  index slot row found := ((lined.get_eq_ok held).mp found).2
  tables := held ▸ lined.tags
  ascending table member := by
    rw [← held] at member
    rw [lined.consistent.listed table member]
    exact lined.laid.ascending.filter _
  entry tag slot row := by
    rw [entry, get, ← held, lined.consistent.entry_eq_ok_iff, lined.consistent.row]
  search tag slot := by
    rw [entry, ← held]
    exact lined.consistent.entry_eq_search tag slot

theorem size_eq (tag : Tag) :
    pool.store.size tag = history.registered.countP fun row => row.table = tag := by
  have listed : tag ∈ history.store.tags := by
    rw [lined.tags]
    cases tag <;> decide
  obtain ⟨table, found⟩ := Store.exists_table? (Store.containsTable_iff.mpr listed)
  obtain ⟨member, same⟩ := Store.table_of_table? found
  rw [← held, Store.size, found, Option.elim_some, ← Array.length_toList,
    lined.consistent.listed table member, same, List.countP_eq_length_filter]

/-- Every row takes a slot, and every wide one takes another one. -/
theorem stop_eq :
    pool.store.rowCount + (pool.store.size .long + pool.store.size .double) + 1 = stop := by
  have rows := lined.consistent.rowCount_eq
  have wide : (history.registered.countP fun row => row.table.isWide) =
      pool.store.size .long + pool.store.size .double := by
    rw [lined.size_eq held, lined.size_eq held, countP_isWide]
  rw [held] at rows
  have widths := lined.laid.stop_eq
  omega

/-- The slots end with the count, if the last one is not taken by a wide
constant. Otherwise they end one slot later. -/
theorem stop_eq_count (counted : 1 ≤ count) (reached : count ≤ stop) :
    (¬pool.WideAt (count - 1) → stop = count) ∧ (pool.WideAt (count - 1) → stop = count + 1) := by
  rw [lined.wideAt_iff held]
  rcases lined.laid.stop_le counted lined.inside with done | ⟨beyond, last, member, before, wide⟩
  · refine ⟨fun _ => Nat.le_antisymm done reached, fun ⟨row, member, same, wide⟩ => ?_⟩
    have bounds := lined.laid.bounds member
    have width := row.table.width_eq
    rw [if_pos wide] at width
    omega
  · refine ⟨fun narrow => ?_, fun _ => beyond⟩
    exact (narrow ⟨last, member, by omega, wide⟩).elim

end Lined

/-- In a pool that was read every slot has a constant, but for those behind a
wide one, and each constant is found by its kind in the table of its kind. -/
theorem slotted_of_read {start : Nat} {pool : Pool}
    (ok : (read source count start).result = .ok pool) : pool.Slotted count := by
  obtain ⟨history, stop, held, lined, reached⟩ := exists_lined_of_read ok
  exact lined.slotted held reached

/-- The sample has a wide constant with another one behind it. -/
theorem slotted_of_read_sampleContents :
    ∃ pool, (read ⟨(encodeAll sampleContents).toArray⟩ 8 0).result = .ok pool ∧
      pool.Slotted 8 := by
  have small : Source.size ⟨(encodeAll sampleContents).toArray⟩ < 2 ^ 32 := by decide
  have holds : Source.Holds ⟨(encodeAll sampleContents).toArray⟩ 0 (encodeAll sampleContents) := by
    simp [Source.Holds]
  have width : totalWidth sampleContents = 7 := by decide
  obtain ⟨pool, ok, -⟩ := read_encodeAll small sampleContents_fit holds
  rw [width] at ok
  exact ⟨pool, ok, slotted_of_read ok⟩

/-- These are all rows of a pool, by ascending slots. -/
structure Enumerated (pool : Pool) (rows : List (Row Tag)) : Prop where
  ascending : (rows.map Row.index).Pairwise (· < ·)
  get : ∀ slot row, pool.get slot = .ok row ↔ row ∈ rows ∧ row.index = slot
  tables : ∀ row, row ∈ rows ↔ ∃ table ∈ pool.store.tables, row ∈ table.rows

theorem exists_enumerated_of_read {start : Nat} {pool : Pool}
    (ok : (read source count start).result = .ok pool) : ∃ rows, pool.Enumerated rows := by
  obtain ⟨history, stop, held, lined, -⟩ := exists_lined_of_read ok
  refine ⟨history.registered, List.pairwise_map.mpr lined.laid.ascending,
    fun slot row => lined.get_eq_ok held, fun row => ?_⟩
  rw [lined.consistent.mem_registered_iff, held]

theorem Enumerated.indexes_eq {pool : Pool} {rows : List (Row Tag)} (h : pool.Enumerated rows) :
    pool.store.indexes = rows.map Row.index := by
  refine Store.indexes_eq h.ascending fun slot => ?_
  rw [List.mem_map]
  exact exists_congr fun row => (h.get slot row).symm

/-- The slots of a pool that was read add up to its count, unless there is a wide
constant in its last slot. -/
theorem rowCount_of_read {start : Nat} {pool : Pool} (counted : 1 ≤ count)
    (ok : (read source count start).result = .ok pool) :
    (¬pool.WideAt (count - 1) →
        pool.store.rowCount + (pool.store.size .long + pool.store.size .double) + 1 = count) ∧
      (pool.WideAt (count - 1) →
        pool.store.rowCount + (pool.store.size .long + pool.store.size .double) + 1 =
          count + 1) := by
  obtain ⟨history, stop, held, lined, reached⟩ := exists_lined_of_read ok
  rw [lined.stop_eq held]
  exact lined.stop_eq_count held counted reached

/-- A pool of one slot with a constant that takes two. -/
def lastLong : Source := ⟨(encodeAll [.long 0]).toArray⟩

theorem rowCount_of_read_lastLong :
    ∃ pool, (read lastLong 2 0).result = .ok pool ∧
      (¬pool.WideAt 1 →
        pool.store.rowCount + (pool.store.size .long + pool.store.size .double) + 1 = 2) ∧
      (pool.WideAt 1 →
        pool.store.rowCount + (pool.store.size .long + pool.store.size .double) + 1 = 3) := by
  have read : (read lastLong 2 0).result.toOption.isSome := by decide +kernel
  cases ok : (Pool.read lastLong 2 0).result with
  | error e =>
      rw [ok] at read
      cases read
  | ok pool => exact ⟨pool, rfl, rowCount_of_read (by decide) ok⟩

/-- The slots of a pool that was read need not add up to its count. -/
theorem exists_rowCount_ne :
    ∃ pool, (read lastLong 2 0).result = .ok pool ∧
      pool.store.rowCount + (pool.store.size .long + pool.store.size .double) + 1 ≠ 2 := by
  have slots : ((read lastLong 2 0).result.toOption.map fun pool =>
      pool.store.rowCount + (pool.store.size .long + pool.store.size .double) + 1) = some 3 := by
    decide +kernel
  cases ok : (Pool.read lastLong 2 0).result with
  | error e =>
      rw [ok] at slots
      cases slots
  | ok pool =>
      rw [ok] at slots
      have three := Option.some.inj slots
      refine ⟨pool, rfl, ?_⟩
      dsimp only at three
      omega

end Pool

end ClassFormat.Constant
