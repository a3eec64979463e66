import ClassFormat.Proofs.Attribute.Reachable

/-!
# Forests of rows

The references in the cells of a row lead to the rows that were registered for
it. They are the earlier ones, so the rows of a pool are trees, numbered with
every tree behind its parts. `Pool.Forest` says this of a pool from which some
references are held, which no row has yet, and some were lost by reads that
failed.
-/
namespace ClassFormat

variable {τ : Type}

/-- The references in a value. -/
def Value.cited (value : Value τ) : List (Reference τ) := value.references?.getD []

/-- The references in the cells of a row, cell after cell. -/
def Row.cited (row : Row τ) : List (Reference τ) :=
  row.cells.flatMap fun cell => cell.value.cited

/-- References in a column of entries have the table of the entries. -/
def Column.Homes (column : Column String) (value : Value String) : Prop :=
  ∀ table, column.type.entryTable? = some table →
    ∀ reference ∈ value.cited, reference.table = some table

namespace Attribute.Pool

/-- The references in the row of this index. -/
def cited (pool : Pool) (index : Nat) : List (Reference String) :=
  match pool.store.row index with
  | .ok row => row.cited
  | .error _ => []

/-- The references in all rows, in the order of the rows. -/
def citations (pool : Pool) : List (Reference String) :=
  pool.store.indexes.flatMap pool.cited

/-- The reference is the one that its row has in its own table. -/
def Leads (pool : Pool) (reference : Reference String) : Prop :=
  ∃ row, pool.resolve reference = .ok row ∧ reference = row.reference

/-- A row under its own index, with references to earlier rows in their
order. -/
structure Closed (pool : Pool) (index : Nat) (row : Row String) : Prop where
  found : pool.store.row index = .ok row
  own : row.index = index
  leads : ∀ reference ∈ row.cited, pool.Leads reference ∧ reference.index < index
  ascending : (row.cited.map Reference.index).Pairwise (· < ·)
  homed : ∀ cell ∈ row.cells, cell.column.Homes cell.value

/-- Every row is closed, and every index is in one row, held or lost. -/
structure Forest (pool : Pool) (held : List (Reference String)) (lost : List Nat) : Prop where
  sound : pool.Sound
  indexes : pool.store.indexes = List.range' 1 pool.store.rowCount
  closed : ∀ index ∈ pool.store.indexes, ∃ row, pool.Closed index row
  leads : ∀ reference ∈ held, pool.Leads reference
  ascending : (held.map Reference.index).Pairwise (· < ·)
  once : (pool.citations.map Reference.index ++ held.map Reference.index ++ lost).Perm
    pool.store.indexes

section Growth

variable {s t : Pool} {index : Nat} {row : Row String}

theorem cited_eq (found : s.store.row index = .ok row) : s.cited index = row.cited := by
  rw [cited, found]

theorem Leads.mono (grown : s.store.Extends t.store) {reference : Reference String}
    (h : s.Leads reference) : t.Leads reference := by
  obtain ⟨row, found, same⟩ := h
  exact ⟨row, grown.resolve found, same⟩

theorem Closed.mono (grown : s.store.Extends t.store) (h : s.Closed index row) :
    t.Closed index row :=
  ⟨grown.row h.found, h.own, fun reference member =>
    ⟨(h.leads reference member).1.mono grown, (h.leads reference member).2⟩, h.ascending, h.homed⟩

end Growth

namespace Forest

variable {s t : Pool} {held : List (Reference String)} {lost : List Nat}

theorem empty : Forest {} [] [] where
  sound := sound_empty
  indexes := rfl
  closed _ member := (List.not_mem_nil member).elim
  leads _ member := (List.not_mem_nil member).elim
  ascending := List.Pairwise.nil
  once := .refl []

/-- Nothing changes by events and by new tables. -/
theorem of_rows_eq (h : Forest s held lost) (evolved : s.Evolves t)
    (same : t.store.rows = s.store.rows) : Forest t held lost := by
  have indexes : t.store.indexes = s.store.indexes := by rw [Store.indexes, same]; rfl
  have cited : t.cited = s.cited := by
    funext index
    unfold Pool.cited Store.row
    rw [same]
  refine ⟨evolved.sound h.sound, ?_, fun index member => ?_, fun reference member => ?_,
    h.ascending, ?_⟩
  · rw [indexes, h.indexes, Store.rowCount, Store.rowCount, same]
  · rw [indexes] at member
    obtain ⟨row, closed⟩ := h.closed index member
    exact ⟨row, closed.mono evolved.grown⟩
  · exact (h.leads reference member).mono evolved.grown
  · rw [citations, indexes, cited]
    exact h.once

/-- The references that are held last may be lost. -/
theorem lose {more : List (Reference String)} (h : Forest s (held ++ more) lost) :
    Forest s held (more.map Reference.index ++ lost) := by
  refine ⟨h.sound, h.indexes, h.closed, fun reference member => ?_, ?_, ?_⟩
  · exact h.leads reference (List.mem_append_left more member)
  · have ascending := h.ascending
    rw [List.map_append] at ascending
    exact (List.pairwise_append.mp ascending).1
  · have once := h.once
    rw [List.map_append] at once
    simpa only [List.append_assoc] using once

theorem mem_indexes_of_held (h : Forest s held lost) {reference : Reference String}
    (member : reference ∈ held) : reference.index ∈ s.store.indexes := by
  refine h.once.subset ?_
  simp only [List.mem_append, List.mem_map]
  exact .inl (.inr ⟨reference, member, rfl⟩)

end Forest

/-- The second pool has one more row, behind all others. -/
structure Appends (s t : Pool) (row : Row String) : Prop where
  sound : t.Sound
  grown : s.store.Extends t.store
  numbered : t.store.indexes = List.range' 1 t.store.rowCount
  indexes : t.store.indexes = s.store.indexes ++ [row.index]
  last : ∀ index ∈ s.store.indexes, index < row.index
  found : t.store.row row.index = .ok row
  leads : t.Leads row.reference

theorem Sound.appends {s t : Pool} {cells : List (Cell String)} {name : String}
    {reference : Reference String} (h : s.Sound)
    (run : Pool.addRow name cells s = .ok reference t) (room : t.store.rowCount < 2 ^ 32) :
    ∃ row, row.cells = cells ∧ reference = row.reference ∧ Appends s t row := by
  obtain ⟨sound, count⟩ := h.addRow run
  obtain ⟨index, added, rfl, -⟩ := addRow_eq_ok.mp run
  obtain ⟨grown, leads⟩ := Store.resolve_of_addRow added
  obtain ⟨minted, placed⟩ := Store.addRow_eq_ok.mp added
  obtain rfl : index = s.store.rowCount + 1 := by
    rw [minted, h.numbered.next (by omega), Nat.mod_eq_of_lt (by omega)]
  have before := h.numbered.indexes_eq (by omega)
  have afterwards := sound.numbered.indexes_eq room
  refine ⟨⟨name, s.store.rowCount + 1, cells⟩, rfl, rfl, sound, grown, afterwards, ?_,
    fun i member => ?_, (Store.row_eq_ok_of_addRowAt placed).mpr (.inr ⟨rfl, rfl⟩), ⟨_, leads, rfl⟩⟩
  · rw [afterwards, count, List.range'_concat, before, Nat.one_mul, Nat.add_comm]
  · rw [before, List.mem_range'_1] at member
    dsimp only
    omega

theorem Appends.citations {s t : Pool} {row : Row String} (h : Appends s t row)
    (closed : ∀ index ∈ s.store.indexes, ∃ row, s.Closed index row) :
    t.citations = s.citations ++ row.cited := by
  rw [Pool.citations, h.indexes, List.flatMap_append, List.flatMap_singleton, cited_eq h.found]
  congr 1
  refine List.flatMap_congr fun i member => ?_
  obtain ⟨row, closed⟩ := closed i member
  rw [cited_eq closed.found, cited_eq (h.grown.row closed.found)]

namespace Forest

variable {s t : Pool} {held : List (Reference String)} {lost : List Nat} {row : Row String}

/-- A new row takes the references that its cells need, and is held in their
place. -/
theorem append (h : Forest s (held ++ row.cited) lost)
    (homed : ∀ cell ∈ row.cells, cell.column.Homes cell.value) (new : Appends s t row) :
    Forest t (held ++ [row.reference]) lost := by
  have early {reference : Reference String} (member : reference ∈ held ++ row.cited) :
      reference.index < row.index :=
    new.last reference.index (h.mem_indexes_of_held member)
  have ascending := h.ascending
  rw [List.map_append, List.pairwise_append] at ascending
  obtain ⟨first, second, -⟩ := ascending
  refine ⟨new.sound, new.numbered, fun i member => ?closed, fun other member => ?leads,
    ?ascending, ?once⟩
  case closed =>
    rw [new.indexes, List.mem_append, List.mem_singleton] at member
    rcases member with old | rfl
    · obtain ⟨row, closed⟩ := h.closed i old
      exact ⟨row, closed.mono new.grown⟩
    · refine ⟨row, new.found, rfl, fun other member => ?_, second, homed⟩
      have member := List.mem_append_right held member
      exact ⟨(h.leads other member).mono new.grown, early member⟩
  case leads =>
    rcases List.mem_append.mp member with old | latest
    · exact (h.leads other (List.mem_append_left _ old)).mono new.grown
    · rw [List.mem_singleton.mp latest]
      exact new.leads
  case ascending =>
    rw [List.map_append, List.pairwise_append]
    refine ⟨first, List.pairwise_singleton _ _, fun i member j latest => ?_⟩
    obtain ⟨other, old, rfl⟩ := List.mem_map.mp member
    rw [List.mem_singleton.mp latest]
    exact early (List.mem_append_left _ old)
  case once =>
    have once := h.once
    rw [new.citations h.closed, new.indexes]
    rw [List.perm_iff_count] at once ⊢
    intro i
    have here := once i
    simp only [List.map_append, List.count_append, List.map_cons, List.map_nil] at here ⊢
    change _ + (_ + List.count i [row.index]) + _ = _
    omega

theorem addRow {cells : List (Cell String)} {name : String} {reference : Reference String}
    (h : Forest s (held ++ cells.flatMap fun cell => cell.value.cited) lost)
    (homed : ∀ cell ∈ cells, cell.column.Homes cell.value)
    (run : Pool.addRow name cells s = .ok reference t) (room : t.store.rowCount < 2 ^ 32) :
    Forest t (held ++ [reference]) lost := by
  obtain ⟨row, rfl, rfl, new⟩ := h.sound.appends run room
  exact h.append homed new

end Forest

end Attribute.Pool

end ClassFormat
