import ClassFormat.Proofs.Attribute.Ledger

/-!
# Every reference is accounted for

What a read returns are the references that it has added to those held before,
and no row has them yet. A read that fails has lost what was given to it on the
way. New tables and new rows go by this, and so do whole reads.
-/
namespace ClassFormat.Attribute

namespace Pool

/-- What a successful run does to a pool: the references it gives are held
afterwards. -/
structure Gives (s t : Pool) (given : List (Reference String)) : Prop where
  evolves : s.Evolves t
  forest : t.store.rowCount < 2 ^ 32 → ∀ {held : List (Reference String)} {lost : List Nat},
    Forest s held lost → Forest t (held ++ given) lost

/-- What a failed run does to a pool: other references may be lost. -/
structure Loses (s t : Pool) : Prop where
  evolves : s.Evolves t
  forest : t.store.rowCount < 2 ^ 32 → ∀ {held : List (Reference String)} {lost : List Nat},
    Forest s held lost → ∃ lost', Forest t held lost'

variable {r s t : Pool} {given more : List (Reference String)}

theorem Gives.of_rows_eq (evolves : s.Evolves t) (same : t.store.rows = s.store.rows) :
    Gives s t [] := by
  refine ⟨evolves, fun _ held lost h => ?_⟩
  rw [List.append_nil]
  exact h.of_rows_eq evolves same

theorem Gives.refl (s : Pool) : Gives s s [] :=
  .of_rows_eq (respected_evolves.refl s) rfl

theorem Gives.trans (h : Gives r s given) (k : Gives s t more) : Gives r t (given ++ more) := by
  refine ⟨respected_evolves.trans h.evolves k.evolves, fun room held lost start => ?_⟩
  have room' := Nat.lt_of_le_of_lt k.evolves.grown.rowCount_le room
  rw [← List.append_assoc]
  exact k.forest room (h.forest room' start)

theorem Gives.loses (h : Gives s t given) : Loses s t :=
  ⟨h.evolves, fun room _ _ start => ⟨_, (h.forest room start).lose⟩⟩

theorem Loses.after (h : Gives r s given) (k : Loses s t) : Loses r t := by
  refine ⟨respected_evolves.trans h.evolves k.evolves, fun room held lost start => ?_⟩
  have room' := Nat.lt_of_le_of_lt k.evolves.grown.rowCount_le room
  obtain ⟨lost', rest⟩ := k.forest room (h.forest room' start)
  exact ⟨_, rest.lose⟩

end Pool

open Pool

section Rows

variable {name : String} {cells : List (Cell String)} {r s t : Pool}

theorem gives_openTable (name : String) (s : Pool) :
    Gives s (stateAfter (Pool.openTable name) s) [] := by
  refine .of_rows_eq (respected_evolves.opened name s) ?_
  obtain ⟨log, opened⟩ := exists_openTable name s
  rw [stateAfter_of_ok opened, Store.ensureTable]
  split <;> rfl

theorem containsTable_openTable (name : String) (s : Pool) :
    (stateAfter (Pool.openTable name) s).store.containsTable name := by
  obtain ⟨log, opened⟩ := exists_openTable name s
  rw [stateAfter_of_ok opened]
  exact Store.containsTable_ensureTable s.store name (columnsOf name)

theorem gives_addRow {reference : Reference String}
    (before : Gives r s (cells.flatMap fun cell => cell.value.cited))
    (homed : ∀ cell ∈ cells, cell.column.Homes cell.value)
    (run : Pool.addRow name cells s = .ok reference t) : Gives r t [reference] := by
  obtain ⟨index, added, -⟩ := addRow_eq_ok.mp run
  have grown := (Store.resolve_of_addRow added).1
  have evolves : s.Evolves t := ⟨grown, fun sound => (sound.addRow run).1⟩
  refine ⟨respected_evolves.trans before.evolves evolves, fun room held lost h => ?_⟩
  have room' := Nat.lt_of_le_of_lt grown.rowCount_le room
  exact (before.forest room' h).addRow homed run room

/-- A row of an open table is not lost as long as there are indexes. -/
theorem loses_addRow (present : s.store.containsTable name)
    (len : cells.length = (columnsOf name).length) {e : DecodingError}
    (run : Pool.addRow name cells s = .error e t) (evolves : s.Evolves t) : Loses s t := by
  refine ⟨evolves, fun room held lost h => ?_⟩
  obtain ⟨e', failed⟩ := of_addRow_eq_error run
  have room' : s.store.rowCount < 2 ^ 32 := by
    rwa [Store.of_addRow_eq_error failed] at room
  obtain ⟨index, store, added⟩ := h.sound.numbered.exists_addRow (h.sound.accepts present len) room'
  rw [failed] at added
  cases added

end Rows

/-- What is given is held, and what was held by a run that fails may be lost. -/
def Ledger.forest : Ledger := ⟨Pool.Gives, Pool.Loses⟩

theorem Ledger.lawful_forest : Ledger.forest.Lawful where
  refl := .refl
  trans := .trans
  loses := Gives.loses
  after := .after
  noted _ _ _ s := .of_rows_eq (.note _ s) rfl
  opened := gives_openTable
  added gives fills run := gives_addRow gives (Cell.homes_of_fills fills) run
  refused {name cells s r t e} gives fills run := by
    have len : cells.length = (columnsOf name).length := fills.length_eq.symm
    have evolves := respected_evolves.added gives.evolves len
    rw [stateAfter_of_error run] at evolves
    have present := gives.evolves.grown.tables name (containsTable_openTable name s)
    exact loses_addRow present len run evolves

end ClassFormat.Attribute
