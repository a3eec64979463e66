import ClassFormat.Proofs.Table.Shape

/-!
# Registering rows

A row is registered under an index unless one of three checks fails, and the
first one that fails is the error. What the checks look at are the rows and the
tables that earlier calls have left. A call that fails leaves the store as it
was, but that a call for the next index uses it up. So the next index is known
from the number of such calls alone, whatever else was called between them.
-/
namespace ClassFormat.Store

variable {τ : Type} [DecidableEq τ] [TableTag τ]

section Checks

variable {store : Store τ} {index : Nat} {row : Row τ}

omit [TableTag τ] in
/-- A table is found at the position of its tag. -/
theorem exists_position? {tag : τ} {table : Table τ} (here : store.table? tag = some table) :
    ∃ position, ∃ bound : position < store.tables.size, store.position? tag = some position ∧
      store.tables[position] = table := by
  obtain ⟨member, same⟩ := table_of_table? here
  obtain ⟨position, bound, found, -⟩ :=
    position?_isSome (Array.any_eq_true'.mpr ⟨table, member, decide_eq_true same⟩)
  refine ⟨position, bound, found, ?_⟩
  rw [table?_eq_of_position? found, Array.getElem?_eq_getElem bound] at here
  exact Option.some.inj here

theorem addRowAt_of_taken (taken : index ∈ store.rows) :
    addRowAt index row store = .error (.duplicateRowIndex index) store :=
  if_pos taken

theorem addRowAt_of_homeless (fresh : index ∉ store.rows)
    (homeless : store.table? row.table = none) :
    addRowAt index row store = .error (.tableNotFound (TableTag.label row.table)) store := by
  have missing : store.position? row.table = none := by
    refine Option.eq_none_iff_forall_ne_some.mpr fun position found => ?_
    obtain ⟨table, here⟩ := exists_table? (containsTable_of_position? found)
    rw [homeless] at here
    cases here
  have free : ¬store.rows.contains index = true := fresh
  unfold addRowAt
  rw [if_neg free, missing]

theorem addRowAt_of_misfit (fresh : index ∉ store.rows) {table : Table τ}
    (home : store.table? row.table = some table)
    (misfit : row.cells.length ≠ table.columns.length) :
    addRowAt index row store = .error (.cellCountMismatch (TableTag.label row.table)
      row.cells.length table.columns.length) store := by
  obtain ⟨position, bound, found, rfl⟩ := exists_position? home
  have free : ¬store.rows.contains index = true := fresh
  unfold addRowAt
  rw [if_neg free, found]
  simp [Array.getElem?_eq_getElem bound, misfit]

theorem exists_addRowAt (fresh : index ∉ store.rows) {table : Table τ}
    (home : store.table? row.table = some table)
    (fits : row.cells.length = table.columns.length) :
    ∃ later, addRowAt index row store = .ok () later ∧
      later.row index = .ok { row with index := index } := by
  obtain ⟨position, bound, found, rfl⟩ := exists_position? home
  have added : addRowAt index row store = .ok () (store.withRow position index row) :=
    addRowAt_eq_ok.mpr ⟨fresh, position, bound, found, fits, rfl⟩
  exact ⟨_, added, (row_eq_ok_of_addRowAt added).mpr (.inr ⟨rfl, rfl⟩)⟩

end Checks

/-- The counter of indexes plays no part in registering a row under a given
one. -/
theorem addRowAt_minted (store : Store τ) (index minted : Nat) (row : Row τ) :
    addRowAt index row { store with minted := minted } =
      match addRowAt index row store with
      | .ok u later => .ok u { later with minted := minted }
      | .error e later => .error e { later with minted := minted } := by
  unfold addRowAt position?
  by_cases taken : store.rows.contains index = true
  · simp only [if_pos taken]
  · simp only [if_neg taken]
    cases store.tables.findIdx? fun table => table.tag = row.table with
    | none => rfl
    | some position =>
        dsimp only
        split <;> rfl

/-- The next index is taken, and then it is as if it had been given. -/
theorem addRow_eq (store : Store τ) (row : Row τ) {index : Nat}
    (next : (store.minted + 1) % 2 ^ 32 = index) :
    addRow row store =
      match addRowAt index row store with
      | .ok _ later => .ok index { later with minted := index }
      | .error e later => .error e { later with minted := index } := by
  subst next
  generalize taken : (store.minted + 1) % 2 ^ 32 = index
  have run : addRow row store = EStateM.bind (addRowAt index row) (fun _ => pure index)
      { store with minted := index } := by
    rw [← taken]
    rfl
  rw [run, EStateM.bind, addRowAt_minted]
  cases addRowAt index row store <;> rfl

/-- Whether the call takes the next index. -/
def Operation.mints : Operation τ → Bool
  | addRow _ => true
  | addTable _ _ | addRowAt _ _ => false

/-- The counter stays as it is. -/
abbrev Unminted {α : Type} (x : EStateM TableError (Store τ) α) : Prop :=
  Always (fun s t : Store τ => t.minted = s.minted) x

omit [DecidableEq τ] [TableTag τ] in
theorem evolution_minted : Evolution fun s t : Store τ => t.minted = s.minted :=
  ⟨fun _ => rfl, fun h k => k.trans h⟩

theorem unminted_addTable (tag : τ) (columns : List (Column τ)) :
    Unminted (addTable tag columns) := by
  intro s
  cases run : addTable tag columns s with
  | ok u later =>
      obtain ⟨-, rfl⟩ := addTable_eq_ok.mp run
      rw [stateAfter_of_ok run]
      rfl
  | error e later => rw [stateAfter_of_error run, of_addTable_eq_error run]

theorem unminted_addRowAt (index : Nat) (row : Row τ) : Unminted (addRowAt index row) := by
  intro s
  cases run : addRowAt index row s with
  | ok u later =>
      obtain ⟨-, position, -, -, -, rfl⟩ := addRowAt_eq_ok.mp run
      rw [stateAfter_of_ok run]
      rfl
  | error e later => rw [stateAfter_of_error run, of_addRowAt_eq_error run]

theorem minted_addRow (row : Row τ) (store : Store τ) :
    (stateAfter (addRow row) store).minted = (store.minted + 1) % 2 ^ 32 := by
  cases run : addRow row store with
  | ok index later =>
      obtain ⟨rfl, added⟩ := addRow_eq_ok.mp run
      have same := unminted_addRowAt ((store.minted + 1) % 2 ^ 32) row
        { store with minted := (store.minted + 1) % 2 ^ 32 }
      rw [stateAfter_of_ok added] at same
      rw [stateAfter_of_ok run, same]
  | error e later => rw [stateAfter_of_error run, of_addRow_eq_error run]

/-- What a call does to the counter, failed or not. -/
theorem Operation.minted_run (operation : Operation τ) (store : Store τ) :
    (stateAfter operation.run store).minted =
      if operation.mints then (store.minted + 1) % 2 ^ 32 else store.minted := by
  have law : Evolution fun s t : Store τ => t.minted = s.minted := evolution_minted
  cases operation with
  | addTable tag columns =>
      have made : Unminted (ofExcept (Table.make tag columns) :
          EStateM TableError (Store τ) (Table τ)) := by
        intro s
        cases Table.make tag columns <;> rfl
      refine Always.bind law made (fun table => ?_) store
      exact .bind law (unminted_addTable _ _) fun _ => .pure law _
  | addRowAt index row =>
      exact Always.bind law (unminted_addRowAt index row) (fun _ => .pure law _) store
  | addRow row =>
      have minted := minted_addRow row store
      cases run : Store.addRow row store with
      | ok index later =>
          rw [stateAfter_of_ok run] at minted
          rw [Operation.run, stateAfter_bind_of_ok run]
          exact minted
      | error e later =>
          rw [stateAfter_of_error run] at minted
          rw [Operation.run, stateAfter_bind_of_error run]
          exact minted

namespace History

/-- How many of the calls take the next index, failed or not. -/
def mintings (operations : List (Operation τ)) : Nat := operations.countP Operation.mints

theorem minted_next (history : History τ) (operation : Operation τ) :
    (history.next operation).store.minted =
      if operation.mints then (history.store.minted + 1) % 2 ^ 32 else history.store.minted := by
  have minted := operation.minted_run history.store
  unfold next
  unfold stateAfter at minted
  split <;> simp_all [enter]

/-- The counter tells how many calls have taken the next index. -/
theorem minted_run (operations : List (Operation τ)) :
    (run operations).store.minted = mintings operations % 2 ^ 32 := by
  induction operations using List.reverseRecOn with
  | nil => rfl
  | append_singleton operations operation ih =>
      have step := minted_next (run operations) operation
      rw [ih] at step
      rw [run, List.foldl_append, List.foldl_cons, List.foldl_nil, ← run, step, mintings, mintings,
        List.countP_append, List.countP_singleton]
      split
      · rw [Nat.mod_add_mod]
      · rfl

/-- Why a row is refused under an index after some calls: the first check that
fails. -/
def refusal? (history : History τ) (index : Nat) (row : Row τ) : Option TableError :=
  if index ∈ history.map then some (.duplicateRowIndex index)
  else
    match history.store.table? row.table with
    | none => some (.tableNotFound (TableTag.label row.table))
    | some table =>
      if row.cells.length = table.columns.length then none
      else some (.cellCountMismatch (TableTag.label row.table) row.cells.length
        table.columns.length)

/-- How a store registers rows after some calls, when so many of them have taken
the next index. -/
structure Registers (history : History τ) (mintings : Nat) : Prop where
  refused : ∀ index row e, history.refusal? index row = some e →
    addRowAt index row history.store = .error e history.store
  accepted : ∀ index row, history.refusal? index row = none →
    ∃ later, addRowAt index row history.store = .ok () later ∧
      later.row index = .ok { row with index := index }
  table : ∀ tag columns e later,
    (Operation.addTable tag columns).run history.store = .error e later → later = history.store
  placed : ∀ index row e later,
    addRowAt index row history.store = .error e later → later = history.store
  next : ∀ row e later, addRow row history.store = .error e later →
    later = { history.store with minted := later.minted }
  turn : mintings + 1 < 2 ^ 32 → ∀ row, addRow row history.store =
    match addRowAt (mintings + 1) row history.store with
    | .ok _ later => .ok (mintings + 1) { later with minted := mintings + 1 }
    | .error e later => .error e { later with minted := mintings + 1 }

omit [TableTag τ] in
theorem Consistent.mem_map_iff {history : History τ} (h : history.Consistent) {index : Nat} :
    index ∈ history.map ↔ index ∈ history.store.rows := by
  simp only [Finmap.mem_iff, mem_rows_iff, h.row]

/-- The checks look at the rows that were registered and at the tables. -/
theorem Consistent.refusal?_eq {history : History τ} (h : history.Consistent) (index : Nat)
    (row : Row τ) :
    match history.refusal? index row with
    | some e => addRowAt index row history.store = .error e history.store
    | none => ∃ later, addRowAt index row history.store = .ok () later ∧
        later.row index = .ok { row with index := index } := by
  unfold refusal?
  by_cases known : index ∈ history.map
  · rw [if_pos known]
    exact addRowAt_of_taken (h.mem_map_iff.mp known)
  · have fresh : index ∉ history.store.rows := mt h.mem_map_iff.mpr known
    rw [if_neg known]
    cases home : history.store.table? row.table with
    | none => exact addRowAt_of_homeless fresh home
    | some table =>
        by_cases fits : row.cells.length = table.columns.length
        · simp only [if_pos fits]
          exact exists_addRowAt fresh home fits
        · simp only [if_neg fits]
          exact addRowAt_of_misfit fresh home fits

/-- After any calls, a row is registered under an index if the first check that
would refuse it is none, and a call that fails changes nothing but the next index
at most. The next index is that of the call: the first call for it takes one, and
so on, whatever was registered under given indexes in between, and then it is as
if the index had been given. -/
theorem run_registers (operations : List (Operation τ)) :
    (run operations).Registers (mintings operations) := by
  have consistent : (run operations).Consistent := (consistent_empty.foldl operations).1
  have checked := consistent.refusal?_eq
  constructor
  case refused =>
    intro index row e refused
    have here := checked index row
    rwa [refused] at here
  case accepted =>
    intro index row accepted
    have here := checked index row
    rwa [accepted] at here
  case table =>
    intro tag columns e later failed
    rcases bind_eq_error.mp failed with failed | ⟨table, _, made, failed⟩
    · exact (ofExcept_eq_error.mp failed).2.symm
    · obtain ⟨-, rfl⟩ := ofExcept_eq_ok.mp made
      rcases bind_eq_error.mp failed with failed | ⟨_, _, -, impossible⟩
      · exact of_addTable_eq_error failed
      · exact (pure_ne_error impossible).elim
  case placed => exact fun index row e later failed => of_addRowAt_eq_error failed
  case next =>
    intro row e later failed
    rw [of_addRow_eq_error failed]
  case turn =>
    intro room row
    refine addRow_eq _ row ?_
    rw [minted_run, Nat.mod_add_mod, Nat.mod_eq_of_lt room]

end History

end ClassFormat.Store
