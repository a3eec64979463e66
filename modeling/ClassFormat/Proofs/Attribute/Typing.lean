import ClassFormat.Proofs.Attribute.Session
import ClassFormat.Proofs.Table.Shape

/-!
# Pools whose rows have the columns of their names

Whatever is read into a pool, and also when reads fail, every row has a value of
the right shape in each of the columns that its table has by its name, and the
references in it lead to rows. This is one more ledger: what a read has given are
references that lead to rows.
-/
namespace ClassFormat.Attribute

namespace Pool

/-- The row fills the columns of its name, and its references lead to rows. -/
structure Filled (pool : Pool) (row : Row String) : Prop where
  fills : List.Forall₂ Cell.Fills (columnsOf row.table) row.cells
  leads : ∀ reference ∈ row.cited, pool.Leads reference

/-- Every row that stands in a table is found by its index, and every row that is
found is filled. -/
structure Typed (pool : Pool) : Prop where
  listed : pool.store.Lists fun row => pool.store.row row.index = .ok row
  rows : ∀ index row, pool.store.row index = .ok row → row.index = index ∧ pool.Filled row

/-- The later pool has all of the first one and is typed if that one is, and then
references lead to its rows. -/
structure Leading (pool later : Pool) (references : List (Reference String)) : Prop where
  grown : pool.store.Extends later.store
  typed : pool.Typed → later.Typed
  leads : pool.Typed → ∀ reference ∈ references, later.Leads reference

variable {r s t : Pool} {given more : List (Reference String)} {row : Row String}

theorem Filled.mono (grown : s.store.Extends t.store) (h : s.Filled row) : t.Filled row :=
  ⟨h.fills, fun reference member => (h.leads reference member).mono grown⟩

theorem typed_empty : Typed {} where
  listed table member := (Array.not_mem_empty _ member).elim
  rows index row found := by
    rw [Store.row_eq_ok] at found
    cases Std.TreeMap.getElem?_emptyc.symm.trans found

/-- A pool with the same rows is typed, wherever it lists them. -/
theorem Typed.of_rows_eq (h : s.Typed) (grown : s.store.Extends t.store)
    (same : t.store.rows = s.store.rows)
    (lists : t.store.Lists fun row => s.store.row row.index = .ok row) : t.Typed := by
  have found (index : Nat) : t.store.row index = s.store.row index := by
    unfold Store.row
    rw [same]
  refine ⟨lists.imp fun row here => (found row.index).trans here, fun index row here => ?_⟩
  rw [found] at here
  obtain ⟨own, filled⟩ := h.rows index row here
  exact ⟨own, filled.mono grown⟩

theorem Typed.addRow (h : s.Typed) {name : String} {cells : List (Cell String)}
    {reference : Reference String} (fills : List.Forall₂ Cell.Fills (columnsOf name) cells)
    (leads : ∀ reference ∈ Ledger.cited cells, s.Leads reference)
    (run : Pool.addRow name cells s = .ok reference t) : t.Typed := by
  obtain ⟨index, added, -, -⟩ := addRow_eq_ok.mp run
  obtain ⟨grown, -⟩ := Store.resolve_of_addRow added
  obtain ⟨-, placed⟩ := Store.addRow_eq_ok.mp added
  have found {i : Nat} {row : Row String} : t.store.row i = .ok row ↔
      s.store.row i = .ok row ∨ index = i ∧ row = ⟨name, index, cells⟩ :=
    Store.row_eq_ok_of_addRowAt placed
  constructor
  · obtain ⟨-, position, -, home, -, same⟩ := Store.addRowAt_eq_ok.mp placed
    rw [same]
    refine Store.Lists.withRow (fun table member row stored => ?_) home ?_
    · obtain ⟨tag, here⟩ := h.listed table member row stored
      refine ⟨tag, ?_⟩
      rw [← same]
      exact found.mpr (.inl here)
    · rw [← same]
      exact found.mpr (.inr ⟨rfl, rfl⟩)
  · intro i row here
    rcases found.mp here with old | ⟨rfl, rfl⟩
    · obtain ⟨own, filled⟩ := h.rows i row old
      exact ⟨own, filled.mono grown⟩
    · exact ⟨rfl, fills, fun other member => (leads other member).mono grown⟩

namespace Leading

theorem refl (s : Pool) : Leading s s [] :=
  ⟨.refl _, id, by simp⟩

theorem trans (h : Leading r s given) (k : Leading s t more) : Leading r t (given ++ more) := by
  refine ⟨h.grown.trans k.grown, k.typed ∘ h.typed, fun typed reference member => ?_⟩
  rcases List.mem_append.mp member with first | second
  · exact (h.leads typed reference first).mono k.grown
  · exact k.leads (h.typed typed) reference second

theorem forget (h : Leading s t given) : Leading s t [] :=
  ⟨h.grown, h.typed, by simp⟩

/-- Nothing is given by what changes no row. -/
theorem of_rows_eq (grown : s.store.Extends t.store) (same : t.store.rows = s.store.rows)
    (lists : s.Typed → t.store.Lists fun row => s.store.row row.index = .ok row) :
    Leading s t [] :=
  ⟨grown, fun typed => typed.of_rows_eq grown same (lists typed), by simp⟩

theorem openTable (name : String) (s : Pool) :
    Leading s (stateAfter (Pool.openTable name) s) [] := by
  obtain ⟨log, opened⟩ := exists_openTable name s
  rw [stateAfter_of_ok opened]
  refine .of_rows_eq (Store.extends_ensureTable s.store name (columnsOf name)) ?_ fun typed => ?_
  · rw [Store.ensureTable]
    split <;> rfl
  · exact typed.listed.ensureTable name (columnsOf name)

theorem addRow {name : String} {cells : List (Cell String)} {reference : Reference String}
    (before : Leading r s (Ledger.cited cells))
    (fills : List.Forall₂ Cell.Fills (columnsOf name) cells)
    (run : Pool.addRow name cells s = .ok reference t) : Leading r t [reference] := by
  obtain ⟨index, added, rfl, -⟩ := addRow_eq_ok.mp run
  obtain ⟨grown, leads⟩ := Store.resolve_of_addRow added
  refine ⟨before.grown.trans grown, fun typed => ?_, fun typed other member => ?_⟩
  · exact (before.typed typed).addRow fills (before.leads typed) run
  · rw [List.mem_singleton.mp member]
    exact ⟨_, leads, rfl⟩

/-- A row that is refused uses up an index at most. -/
theorem refused {name : String} {cells : List (Cell String)} {e : DecodingError}
    (run : Pool.addRow name cells s = .error e t) : Leading s t [] := by
  obtain ⟨e', failed⟩ := of_addRow_eq_error run
  have same := Store.of_addRow_eq_error failed
  refine .of_rows_eq ?_ (by rw [same]) fun typed => ?_
  · rw [same]
    exact ⟨fun _ table => table, fun _ _ row => row⟩
  · rw [same]
    exact typed.listed

end Leading

end Pool

/-- What is given leads to rows. -/
def Ledger.typing : Ledger := ⟨Pool.Leading, fun s t => Pool.Leading s t []⟩

theorem Ledger.lawful_typing : Ledger.typing.Lawful where
  refl := .refl
  trans := .trans
  loses := Pool.Leading.forget
  after h k := (h.trans k).forget
  noted _ _ _ _ := .of_rows_eq (.refl _) rfl Pool.Typed.listed
  opened := .openTable
  added := .addRow
  refused _ _ := Pool.Leading.refused

namespace Session

variable {session : Session}

/-- A call keeps what is there, and what it returns leads to rows. -/
theorem leading_next (session : Session) (call : Call) :
    session.pool.Leading (session.next call).pool [] := by
  have law := Ledger.lawful_typing.run call
  unfold Session.next
  cases run : call.run session.pool with
  | ok references pool =>
      obtain ⟨given, -, leading⟩ := law.ok run
      exact leading.forget
  | error e pool => exact law.error run

theorem leading_foldl (session : Session) (calls : List Call) :
    session.pool.Leading (calls.foldl next session).pool [] := by
  induction calls generalizing session with
  | nil => exact .refl _
  | cons call calls ih => exact (session.leading_next call).trans (ih (session.next call))

theorem run_typed (calls : List Call) : (run calls).pool.Typed :=
  (leading_foldl {} calls).typed Pool.typed_empty

/-- What a call has returned leads to rows in the pool that it leaves, and ever
after. -/
theorem leads_of_run {before later : List Call} {call : Call}
    {references : List (Reference String)} {pool : Pool}
    (returned : call.run (run before).pool = .ok references pool) :
    ∀ reference ∈ references, (run (before ++ call :: later)).pool.Leads reference := by
  obtain ⟨given, rfl, leading⟩ := (Ledger.lawful_typing.run call).ok returned
  have here : ((run before).next call).pool = pool := by
    unfold Session.next
    rw [returned]
  have rest := leading_foldl ((run before).next call) later
  rw [here] at rest
  rw [run, List.foldl_append, List.foldl_cons]
  intro reference member
  exact (leading.leads (run_typed before) reference member).mono rest.grown

end Session

end ClassFormat.Attribute
