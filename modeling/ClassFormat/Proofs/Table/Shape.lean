import ClassFormat.Proofs.Table.History

/-!
# The shape of stored rows

A table declares its columns once, and its rows come with cells that keep
columns of their own. Two things are checked on the way: a value suits the
column of its cell, and there are as many cells as the table has columns. That
these are the columns of the table is left to the callers. So the rows of a table
share its shape if and only if every row that was registered came in the columns
of its table.
-/
namespace ClassFormat

variable {τ : Type}

/-- The row was built from cells that were built, from whatever columns. -/
structure Row.Built [TableTag τ] (row : Row τ) : Prop where
  cells : ∀ cell ∈ row.cells, ∃ column raw size value,
    Cell.make column raw size value = .ok cell
  row : ∃ table index cells, Row.make table index cells = .ok row

/-- The row has a cell for each of the columns, and each of its values suits the
column that its own cell keeps. -/
structure Row.Checked (columns : List (Column τ)) (row : Row τ) : Prop where
  width : row.cells.length = columns.length
  kinds : ∀ cell ∈ row.cells, cell.value.shape = cell.column.type.shape

/-- The row has a cell in each of the columns, in order. -/
def Row.Fits (columns : List (Column τ)) (row : Row τ) : Prop :=
  row.cells.map Cell.column = columns

/-- The values of the row are of the kinds that the columns declare, in order. -/
def Row.Kinded (columns : List (Column τ)) (row : Row τ) : Prop :=
  List.Forall₂ (fun cell column => cell.value.shape = column.type.shape) row.cells columns

theorem Row.Built.shape [TableTag τ] {row : Row τ} (built : row.Built) :
    ∀ cell ∈ row.cells, cell.value.shape = cell.column.type.shape := by
  intro cell member
  obtain ⟨column, raw, size, value, made⟩ := built.cells cell member
  unfold Cell.make at made
  split at made
  next suits =>
    cases made
    exact suits
  next => cases made

/-- Rows in the columns of a table need no other check. -/
theorem Row.Checked.kinded {columns : List (Column τ)} {row : Row τ} (checked : row.Checked columns)
    (fits : row.Fits columns) : row.Kinded columns := by
  subst fits
  refine List.forall₂_map_right_iff.mpr (List.forall₂_same.mpr checked.kinds)

namespace Value

variable {value : Value τ}

theorem shape_eq_byte : value.shape = .byte ↔ ∃ n, value = .byte n := by
  cases value <;> simp [shape]

theorem shape_eq_short : value.shape = .short ↔ ∃ n, value = .short n := by
  cases value <;> simp [shape]

theorem shape_eq_word : value.shape = .word ↔ ∃ n, value = .word n := by
  cases value <;> simp [shape]

theorem shape_eq_bytes : value.shape = .bytes ↔ ∃ list, value = .bytes list := by
  cases value <;> simp [shape]

theorem shape_eq_shorts : value.shape = .shorts ↔ ∃ numbers, value = .shorts numbers := by
  cases value <;> simp [shape]

theorem shape_eq_text : value.shape = .text ↔ ∃ s, value = .text s := by
  cases value <;> simp [shape]

theorem shape_eq_references : value.shape = .references ↔ ∃ list, value = .references list := by
  cases value <;> simp [shape]

end Value

/-- The shapes of the values in cells. -/
abbrev Cell.shapes (cells : List (Cell τ)) : List Shape :=
  cells.map fun cell => cell.value.shape

theorem Cell.shapes_eq_cons {cells : List (Cell τ)} {shape : Shape} {shapes : List Shape} :
    Cell.shapes cells = shape :: shapes ↔ ∃ column raw size value rest,
      cells = ⟨column, raw, size, value⟩ :: rest ∧ value.shape = shape ∧
        Cell.shapes rest = shapes := by
  rw [List.map_eq_cons_iff]
  constructor
  · rintro ⟨⟨column, raw, size, value⟩, rest, rfl, first, others⟩
    exact ⟨column, raw, size, value, rest, rfl, first, others⟩
  · rintro ⟨column, raw, size, value, rest, rfl, first, others⟩
    exact ⟨_, rest, rfl, first, others⟩

theorem Row.Kinded.shapes {columns : List (Column τ)} {row : Row τ} (kinded : row.Kinded columns) :
    Cell.shapes row.cells = columns.map fun column => column.type.shape :=
  List.forall₂_eq_eq_eq ▸ List.forall₂_map_left_iff.mpr (List.forall₂_map_right_iff.mpr kinded)

namespace Row

/-- The shape of the value in a column, if the row has one there. -/
def shape? (row : Row τ) (column : Nat) : Option Shape :=
  row.cells[column]?.map fun cell => cell.value.shape

theorem Kinded.shape?_eq {columns : List (Column τ)} {row : Row τ} (kinded : row.Kinded columns)
    (column : Nat) : row.shape? column = columns[column]?.map fun column => column.type.shape := by
  unfold Row.Kinded at kinded
  unfold shape?
  generalize row.cells = cells at kinded
  induction kinded generalizing column with
  | nil => rfl
  | cons first _ ih =>
      cases column with
      | zero => exact congrArg some first
      | succ column => exact ih column

variable {row : Row τ} {column : Nat}

/-- A value of a shape is read if it is picked from all values of this shape. -/
theorem exists_content {α : Type} {shape : Shape} (holds : row.shape? column = some shape)
    {pick : Value τ → Option α}
    (total : ∀ value, value.shape = shape → ∃ content, pick value = some content) :
    ∃ content, row.content column shape pick = .ok content := by
  obtain ⟨cell, here, same⟩ := Option.map_eq_some_iff.mp holds
  obtain ⟨content, picked⟩ := total cell.value same
  refine ⟨content, ?_⟩
  have found : row.cell column = .ok cell := by
    unfold Row.cell
    rw [here]
  simp [Row.content, found, picked, bind, Except.bind]

theorem exists_byte (holds : row.shape? column = some .byte) : ∃ n, row.byte column = .ok n := by
  refine exists_content holds fun value shape => ?_
  obtain ⟨n, rfl⟩ := Value.shape_eq_byte.mp shape
  exact ⟨n, rfl⟩

theorem exists_short (holds : row.shape? column = some .short) : ∃ n, row.short column = .ok n := by
  refine exists_content holds fun value shape => ?_
  obtain ⟨n, rfl⟩ := Value.shape_eq_short.mp shape
  exact ⟨n, rfl⟩

theorem exists_text (holds : row.shape? column = some .text) : ∃ s, row.text column = .ok s := by
  refine exists_content holds fun value shape => ?_
  obtain ⟨s, rfl⟩ := Value.shape_eq_text.mp shape
  exact ⟨s, rfl⟩

end Row

namespace Store

/-- Every row satisfies a condition on the columns of its table. -/
def Every (P : List (Column τ) → Row τ → Prop) (store : Store τ) : Prop :=
  ∀ table ∈ store.tables, ∀ row ∈ table.rows, P table.columns row

/-- Every row stands in the table of its own tag, and satisfies a condition. -/
def Lists (P : Row τ → Prop) (store : Store τ) : Prop :=
  ∀ table ∈ store.tables, ∀ row ∈ table.rows, row.table = table.tag ∧ P row

variable [DecidableEq τ] [TableTag τ]

namespace Lists

variable {store : Store τ} {P Q : Row τ → Prop}

omit [DecidableEq τ] [TableTag τ] in
theorem imp (h : store.Lists P) (weaker : ∀ row, P row → Q row) : store.Lists Q :=
  fun table member row stored =>
    ⟨(h table member row stored).1, weaker row (h table member row stored).2⟩

omit [TableTag τ] in
theorem ensureTable (h : store.Lists P) (tag : τ) (columns : List (Column τ)) :
    (store.ensureTable tag columns).Lists P := by
  unfold Store.ensureTable
  split
  next => exact h
  next =>
    intro table member
    rcases Array.mem_push.mp member with old | rfl
    · exact h table old
    · simp [Table.empty]

omit [TableTag τ] in
/-- A row is added to the table of its tag. -/
theorem withRow (h : store.Lists P) {row : Row τ} {position index : Nat}
    (found : store.position? row.table = some position) (new : P { row with index := index }) :
    (store.withRow position index row).Lists P := by
  obtain ⟨bound, same, -⟩ := Array.findIdx?_eq_some_iff_getElem.mp found
  intro table member other stored
  obtain ⟨i, small, rfl⟩ := Array.mem_iff_getElem.mp member
  simp only [Store.withRow, Array.size_modify] at small
  have before := h store.tables[i] (Array.getElem_mem small)
  simp only [Store.withRow, Array.getElem_modify] at stored ⊢
  split at stored
  next here =>
    subst here
    rw [if_pos rfl]
    rcases Array.mem_push.mp stored with old | rfl
    · exact before other old
    · exact ⟨(of_decide_eq_true same).symm, new⟩
  next other_table =>
    rw [if_neg other_table]
    exact before other stored

end Lists

/-- The row that a call for rows is given. -/
def Operation.given? : Operation τ → Option (Row τ)
  | addTable _ _ => none
  | addRow row => some row
  | addRowAt _ row => some row

/-- If the call registers a row, this row satisfies the condition on the columns
of its table. -/
def Operation.Gives (P : List (Column τ) → Row τ → Prop) (store : Store τ)
    (operation : Operation τ) : Prop :=
  ∀ row later, operation.run store = .ok (some row) later →
    ∀ table, store.table? row.table = some table → P table.columns row

variable {store : Store τ} {P : List (Column τ) → Row τ → Prop}

omit [TableTag τ] in
theorem table?_eq_of_position? {tag : τ} {position : Nat}
    (found : store.position? tag = some position) : store.table? tag = store.tables[position]? := by
  obtain ⟨bound, same, first⟩ := Array.findIdx?_eq_some_iff_getElem.mp found
  rw [Array.getElem?_eq_getElem bound]
  refine Array.find?_eq_some_iff_getElem.mpr ⟨same, position, bound, rfl, fun i before => ?_⟩
  simpa using first i before

omit [DecidableEq τ] [TableTag τ] in
theorem every_withTable {tag : τ} {columns : List (Column τ)} :
    (store.withTable tag columns).Every P ↔ store.Every P := by
  unfold Every withTable
  simp [Table.empty, or_imp, forall_and]

omit [TableTag τ] in
/-- A new row adds what holds of it and of the columns of its table. -/
theorem every_withRow (apart : (store.tables.toList.map Table.tag).Nodup) {row : Row τ}
    {position : Nat} (found : store.position? row.table = some position) :
    (store.withRow position row.index row).Every P ↔
      store.Every P ∧ ∀ table, store.table? row.table = some table → P table.columns row := by
  have only (table : Table τ) (member : table ∈ store.tables) (here : table.tag = row.table) :
      store.table? row.table = some table := by
    obtain ⟨other, there⟩ := exists_table? (containsTable_of_position? found)
    obtain ⟨member', tag⟩ := table_of_table? there
    have same := List.inj_on_of_nodup_map apart (Array.mem_toList_iff.mpr member)
      (Array.mem_toList_iff.mpr member') (here.trans tag.symm)
    rw [there, same]
  unfold Every
  rw [tables_withRow apart found]
  constructor
  · intro every
    refine ⟨fun table member other stored => ?_, fun table here => ?_⟩
    · have grown := every _ (Array.mem_map_of_mem member) other
      by_cases home : table.tag = row.table
      · rw [if_pos home] at grown
        exact grown (Array.mem_push.mpr (.inl stored))
      · rw [if_neg home] at grown
        exact grown stored
    · obtain ⟨member, tag⟩ := table_of_table? here
      have grown := every _ (Array.mem_map_of_mem member) row
      rw [if_pos tag] at grown
      exact grown Array.mem_push_self
  · intro every table member other stored
    obtain ⟨every, new⟩ := every
    obtain ⟨before, old, rfl⟩ := Array.mem_map.mp member
    by_cases home : before.tag = row.table
    · rw [if_pos home] at stored ⊢
      rcases Array.mem_push.mp stored with stored | rfl
      · exact every before old other stored
      · exact new before (only before old home)
    · rw [if_neg home] at stored ⊢
      exact every before old other stored

namespace Operation

variable {later : Store τ} {operation : Operation τ}

/-- A row that was registered is the row that was given, under its index, and as
wide as its table. -/
theorem given_of_some {row : Row τ} (done : operation.run store = .ok (some row) later) :
    ∃ given ∈ operation.given?, row.cells = given.cells ∧
      ∀ table, store.table? row.table = some table →
        row.cells.length = table.columns.length := by
  have width {index : Nat} {given : Row τ} {before : Store τ} {u : Unit}
      (added : Store.addRowAt index given before = .ok u later) (table : Table τ)
      (here : before.table? given.table = some table) :
      given.cells.length = table.columns.length := by
    obtain ⟨-, position, bound, found, same, -⟩ := addRowAt_eq_ok.mp added
    rw [table?_eq_of_position? found, Array.getElem?_eq_getElem bound] at here
    cases here
    exact same
  cases operation with
  | addTable tag columns =>
      obtain ⟨_, _, -, done⟩ := bind_eq_ok.mp done
      obtain ⟨_, _, -, done⟩ := bind_eq_ok.mp done
      cases (pure_eq_ok.mp done).1
  | addRow given =>
      obtain ⟨index, _, added, done⟩ := bind_eq_ok.mp done
      obtain ⟨same, rfl⟩ := pure_eq_ok.mp done
      cases same
      obtain ⟨-, added⟩ := addRow_eq_ok.mp added
      exact ⟨given, rfl, rfl, fun table here => width added table here⟩
  | addRowAt index given =>
      obtain ⟨_, _, added, done⟩ := bind_eq_ok.mp done
      obtain ⟨same, rfl⟩ := pure_eq_ok.mp done
      cases same
      exact ⟨given, rfl, rfl, width added⟩

/-- Built rows pass the checks that are made. -/
theorem gives_checked (built : ∀ row ∈ operation.given?, row.Built) :
    operation.Gives Row.Checked store := by
  intro row later done table here
  obtain ⟨given, member, cells, width⟩ := given_of_some done
  refine ⟨width table here, ?_⟩
  rw [cells]
  exact (built given member).shape

end Operation

namespace History

/-- Each call in turn gives rows of this condition to the store that it finds. -/
def Gives (P : List (Column τ) → Row τ → Prop) (history : History τ) :
    List (Operation τ) → Prop
  | [] => True
  | operation :: operations =>
    operation.Gives P history.store ∧ (history.next operation).Gives P operations

variable {history : History τ} {operations : List (Operation τ)}

theorem every_next_iff (h : history.Consistent) (operation : Operation τ) :
    (history.next operation).store.Every P ↔
      history.store.Every P ∧ operation.Gives P history.store := by
  unfold History.next Operation.Gives
  cases result : operation.run history.store with
  | ok made later =>
      cases made with
      | none =>
          obtain ⟨tag, columns, -, rfl⟩ := Operation.of_none result
          simp [every_withTable]
      | some row =>
          obtain ⟨-, minted, position, found, rfl⟩ := Operation.of_some result
          have step := every_withRow (P := P) (h.mint minted).tags found
          refine step.trans (and_congr_right fun _ => ?_)
          simp only [EStateM.Result.ok.injEq, Option.some.injEq]
          constructor
          · rintro new _ _ ⟨rfl, -⟩
            exact new
          · intro new
            exact new row _ ⟨rfl, rfl⟩
  | error e later =>
      obtain ⟨minted, rfl⟩ := Operation.of_error result
      simp [Every]

/-- The condition holds of every row that is stored if it holds of every row that
comes in, and only then. -/
theorem every_foldl_iff (h : history.Consistent) :
    (operations.foldl next history).store.Every P ↔
      history.store.Every P ∧ history.Gives P operations := by
  induction operations generalizing history with
  | nil => simp [Gives]
  | cons operation operations ih =>
      rw [List.foldl_cons, ih (h.next operation).1, every_next_iff h, Gives, and_assoc]

theorem every_run_iff : (run operations).store.Every P ↔ Gives P {} operations := by
  rw [run, every_foldl_iff consistent_empty]
  simp [Every]

theorem gives_of_forall (all : ∀ operation ∈ operations, ∀ store, operation.Gives P store) :
    history.Gives P operations := by
  induction operations generalizing history with
  | nil => trivial
  | cons operation operations ih =>
      obtain ⟨now, later⟩ := List.forall_mem_cons.mp all
      exact ⟨now history.store, ih later⟩

/-- Built rows have the width of their table, and each value the kind of the
column that its cell keeps. The rows share the columns of the table, and the kinds
that these declare, if every row came so, and only then. -/
theorem run_shape
    (built : ∀ operation ∈ operations, ∀ row ∈ operation.given?, row.Built) :
    (run operations).store.Every Row.Checked ∧
      ((run operations).store.Every Row.Fits ↔ Gives Row.Fits {} operations) ∧
      ((run operations).store.Every Row.Fits → (run operations).store.Every Row.Kinded) := by
  have checked : (run operations).store.Every Row.Checked :=
    every_run_iff.mpr (gives_of_forall fun operation member store =>
      Operation.gives_checked (built operation member))
  refine ⟨checked, every_run_iff, fun fits table member row stored => ?_⟩
  exact (checked table member row stored).kinded (fits table member row stored)

/-- Text for a table of numbers, in a cell whose column is of another table. -/
def misfit : List (Operation String) :=
  [.addTable "A" [⟨"A", 0, "x", .uint16⟩],
   .addRow ⟨"A", 0, [⟨⟨"B", 0, "y", .utf8String⟩, 1, 3, .text "s"⟩]⟩]

theorem misfit_built : ∀ operation ∈ misfit, ∀ row ∈ operation.given?, row.Built := by
  intro operation member row given
  simp only [misfit, List.mem_cons, List.not_mem_nil, or_false] at member
  rcases member with rfl | rfl
  · cases given
  · cases given
    refine ⟨fun cell member => ?_, "A", 0,
      [⟨⟨"B", 0, "y", .utf8String⟩, 1, 3, .text "s"⟩], rfl⟩
    rw [List.mem_singleton.mp member]
    exact ⟨⟨"B", 0, "y", .utf8String⟩, 1, 3, .text "s", rfl⟩

theorem run_shape_misfit :
    (∀ operation ∈ misfit, ∀ row ∈ operation.given?, row.Built) ∧
      (run misfit).store.Every Row.Checked ∧
      ((run misfit).store.Every Row.Fits ↔ Gives Row.Fits {} misfit) ∧
      ((run misfit).store.Every Row.Fits → (run misfit).store.Every Row.Kinded) :=
  ⟨misfit_built, run_shape misfit_built⟩

/-- The row of text is stored in the table of numbers. -/
theorem misfit_stored :
    (∀ operation ∈ misfit, ∀ row ∈ operation.given?, row.Built) ∧
      ¬(run misfit).store.Every Row.Fits ∧ ¬(run misfit).store.Every Row.Kinded := by
  have tables : (run misfit).store.tables =
      #[⟨"A", [⟨"A", 0, "x", .uint16⟩],
        #[⟨"A", 1, [⟨⟨"B", 0, "y", .utf8String⟩, 1, 3, .text "s"⟩]⟩]⟩] := by decide +kernel
  refine ⟨misfit_built, ?_⟩
  unfold Every
  rw [tables]
  simp [Row.Fits, Row.Kinded, Value.shape, ColumnType.shape]

end History

end Store

end ClassFormat
