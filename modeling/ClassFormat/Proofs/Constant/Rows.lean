import ClassFormat.Proofs.Constant.Prefix
import ClassFormat.Proofs.Constant.RoundTrip

/-!
# Rows of a pool that was read

A pool that was read has one row for every entry. The entries stand behind each
other, and each has the first of the slots that those in front of it left, so
that the rows in the order of their indexes are the entries in the order of
their bytes.
-/
namespace ClassFormat.Constant

open BigEndian

/-- Whether a row is read off these bytes. -/
def WrittenRow (bytes : List UInt8) (row : Row Tag) : Prop :=
  ∃ payload, bytes = row.table.code :: payload ∧ WrittenCells row.table.columns payload row.cells

/-- Whether rows are read off bytes from a slot on until none is left. A wide constant in
the last slot leaves none, too. -/
inductive WrittenRows : Nat → Nat → List UInt8 → List (Row Tag) → Prop
  | nil {slot : Nat} : WrittenRows slot 0 [] []
  | cons {slot left : Nat} {first rest : List UInt8} {row : Row Tag} {rows : List (Row Tag)} :
      WrittenRow first row → row.index = slot →
      WrittenRows (slot + row.table.width) (left + 1 - row.table.width) rest rows →
      WrittenRows slot (left + 1) (first ++ rest) (row :: rows)

theorem WrittenCells.length_eq {columns : List (Column Tag)} {bytes : List UInt8}
    {cells : List (Cell Tag)} (written : WrittenCells columns bytes cells) :
    bytes.length = (cells.map Cell.size).sum := by
  induction written with
  | nil => rfl
  | cons first _ ih => simp [first.length_eq, ih]

theorem WrittenRow.length_eq {bytes : List UInt8} {row : Row Tag} (written : WrittenRow bytes row) :
    bytes.length = 1 + (row.cells.map Cell.size).sum := by
  obtain ⟨payload, rfl, cells⟩ := written
  rw [List.length_cons, cells.length_eq, Nat.add_comm]

namespace WrittenRows

variable {slot left : Nat} {bytes : List UInt8} {rows : List (Row Tag)}

theorem length_eq (written : WrittenRows slot left bytes rows) :
    bytes.length = (rows.map fun row => 1 + (row.cells.map Cell.size).sum).sum := by
  induction written with
  | nil => rfl
  | cons first _ _ ih => simp [first.length_eq, ih]

theorem le_index (written : WrittenRows slot left bytes rows) :
    ∀ row ∈ rows, slot ≤ row.index := by
  induction written with
  | nil => simp
  | cons _ here _ ih =>
      intro other member
      rcases List.mem_cons.mp member with rfl | later
      · exact Nat.le_of_eq here.symm
      · exact Nat.le_of_add_right_le (ih other later)

/-- Every row has a greater index than those in front of it. -/
theorem index_pairwise (written : WrittenRows slot left bytes rows) :
    (rows.map Row.index).Pairwise (· < ·) := by
  induction written with
  | nil => exact .nil
  | @cons slot left _ _ row rows _ here rest ih =>
      have wide := width_pos row.table
      refine List.pairwise_cons.mpr ⟨fun index member => ?_, ih⟩
      obtain ⟨other, later, rfl⟩ := List.mem_map.mp member
      have behind := rest.le_index other later
      omega

end WrittenRows

section Reading

variable {source : Source} {count : Nat}

/-- What was read is a row for each entry, and nothing else was registered. -/
theorem exists_rows_of_readEntries (small : source.size < 2 ^ 32) {left : Nat} :
    ∀ {slot : Nat} {s t : Pool.Progress}, Stocked s.store →
      Pool.readEntries source slot left s = .ok () t →
      ∃ bytes rows, WrittenRows slot left bytes rows ∧ source.Holds s.offset bytes ∧
        t.offset = s.offset + bytes.length ∧ ∀ i row, t.store.row i = .ok row ↔
          s.store.row i = .ok row ∨ row ∈ rows ∧ row.index = i := by
  -- Wide entries skip a slot, so the recursion is on all smaller numbers of slots.
  induction left using Nat.strongRecOn with
  | ind left ih =>
      intro slot s t stocked run
      cases left with
      | zero =>
          obtain ⟨-, rfl⟩ := pure_eq_ok.mp run
          exact ⟨[], [], .nil, List.nil_prefix, rfl, by simp⟩
      | succ left =>
          rw [Pool.readEntries_succ] at run
          obtain ⟨tag, r, first, others⟩ := bind_eq_ok.mp run
          have fewer : left + 1 - tag.width < left + 1 := by
            have wide := width_pos tag
            omega
          obtain ⟨payload, cells, written, holds, moved, -, added⟩ :=
            (Pool.readEntry_eq_ok small stocked).mp first
          obtain ⟨rest, rows, later, holds', moved', found⟩ :=
            ih _ fewer (stocked.of_addRowAt added) others
          let row : Row Tag := ⟨tag, slot, cells⟩
          rw [moved] at holds' moved'
          refine ⟨(tag.code :: payload) ++ rest, row :: rows,
            .cons ⟨payload, rfl, written⟩ rfl later, Source.holds_append.mpr ⟨holds, holds'⟩,
            ?_, ?_⟩
          · rw [moved', List.length_append, Nat.add_assoc]
          · intro i other
            rw [found, Store.row_eq_ok_of_addRowAt added, or_assoc]
            refine or_congr_right ?_
            constructor
            · intro h
              rcases h with ⟨rfl, rfl⟩ | ⟨member, place⟩
              · exact ⟨List.mem_cons_self, rfl⟩
              · exact ⟨List.mem_cons_of_mem _ member, place⟩
            · intro h
              obtain ⟨member, place⟩ := h
              rcases List.mem_cons.mp member with rfl | behind
              · exact .inl ⟨place, rfl⟩
              · exact .inr ⟨behind, place⟩

theorem row_emptyStore (i : Nat) (row : Row Tag) : Pool.emptyStore.row i ≠ .ok row := by
  intro found
  obtain ⟨content, member, -⟩ := (filled_emptyStore.rows i row).mp (Store.row_eq_ok.mp found)
  exact List.not_mem_nil member

/-- The rows of a pool, with the bytes that they were read off. -/
theorem exists_rows_of_read (small : source.size < 2 ^ 32) {start : Nat} {pool : Pool}
    (ok : (Pool.read source count start).result = .ok pool) :
    ∃ bytes rows, WrittenRows 1 (count - 1) bytes rows ∧ source.Holds start bytes ∧
      (Pool.read source count start).offset = start + bytes.length ∧
      pool.dataLength = bytes.length ∧
      ∀ i row, pool.get i = .ok row ↔ row ∈ rows ∧ row.index = i := by
  obtain ⟨t, run, moved, rfl⟩ := Pool.exists_run_of_read ok
  obtain ⟨bytes, rows, written, holds, behind, found⟩ := exists_rows_of_readEntries small Pool.stocked_emptyStore run
  dsimp only at holds behind
  refine ⟨bytes, rows, written, holds, by rw [moved, behind], ?_, fun i row => ?_⟩
  · dsimp only
    rw [behind, Nat.add_sub_cancel_left]
  · rw [Pool.get, found]
    simp [row_emptyStore]

end Reading

/-- The indexes of the pool lead to the rows in the order of their bytes. -/
theorem mapM_get_indexes {slot left : Nat} {bytes : List UInt8} {rows : List (Row Tag)}
    {pool : Pool} (written : WrittenRows slot left bytes rows)
    (found : ∀ i row, pool.get i = .ok row ↔ row ∈ rows ∧ row.index = i) :
    pool.store.indexes.mapM pool.get = .ok rows := by
  have indexes : pool.store.indexes = rows.map Row.index := by
    refine Store.indexes_eq written.index_pairwise fun i => ?_
    rw [List.mem_map]
    exact exists_congr fun row => (found i row).symm
  have each : ∀ row ∈ rows, pool.get row.index = .ok row := fun row member =>
    (found row.index row).mpr ⟨member, rfl⟩
  rw [indexes]
  clear indexes written found
  induction rows with
  | nil => rfl
  | cons row rows ih =>
      obtain ⟨here, rest⟩ := List.forall_mem_cons.mp each
      rw [List.map_cons, List.mapM_cons, here, ih rest]
      rfl

end ClassFormat.Constant
