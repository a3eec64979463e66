import ClassFormat.Attribute.Decoder
import ClassFormat.Proofs.Table.Making

/-!
# The tables of an attribute pool

The table of a name is made with the columns of the name, which has some, and only
when there is none. The cells that are read suit their columns, and a record has as
many of them as columns. So none of the checks that tables, rows and cells are made
with ever fails.
-/
namespace ClassFormat.Attribute

theorem layoutOf_ne_nil (name : String) : layoutOf name ≠ [] := by
  unfold layoutOf
  cases Kind.ofName? name with
  | none => decide
  | some kind =>
      cases kind with
      | ofEntry entry => cases entry <;> decide
      | _ => decide

theorem columnsOf_ne_nil (name : String) : columnsOf name ≠ [] := by
  unfold columnsOf Layout.columns
  simpa using layoutOf_ne_nil name

/-- A cell can be made of a value that suits its column. -/
theorem check_makeCell {σ : Type} {column : Column String} {value : Value String}
    (suits : value.shape = column.type.shape) (raw size : Nat) :
    (Reads.plain.check (Cell.make column raw size value) : EStateM DecodingError σ (Cell String)) =
      pure ⟨column, raw, size, value⟩ := by
  rw [Cell.make_eq_ok.mpr ⟨suits, rfl⟩]
  rfl

/-- The number of bytes read so far. -/
def PayloadReader.position : PayloadReader Nat := ask Reads.plain.position

section Shapes

variable {s t : Payload} {result : Nat × Value String}

theorem shape_of_readPlain {type : ColumnType} {read : PayloadReader (Nat × Value String)}
    (known : readPlain type = some read) (run : read s = .ok result t) :
    result.2.shape = type.shape := by
  cases type <;> cases known
  case byte | uint16 | uint32 =>
    obtain ⟨_, _, -, run⟩ := bind_eq_ok.mp run
    cases run
    rfl
  case byteArray | shortArray | raw =>
    obtain ⟨_, _, -, run⟩ := bind_eq_ok.mp run
    obtain ⟨_, _, -, run⟩ := bind_eq_ok.mp run
    cases run
    rfl

theorem shape_of_readList {readList : Nat → PayloadReader (List (Reference String))}
    (run : (do
      let count ← PayloadReader.onWindow Window.short
      let references ← readList count.toNat
      return (count.toNat, Value.references references)) s = .ok result t) :
    result.2.shape = .references := by
  obtain ⟨count, _, -, run⟩ := bind_eq_ok.mp run
  obtain ⟨references, _, -, run⟩ := bind_eq_ok.mp run
  cases run
  rfl

theorem shape_of_readEntries {entry : Entry} (run : readEntries entry s = .ok result t) :
    result.2.shape = .references := by
  obtain ⟨count, _, -, run⟩ := bind_eq_ok.mp run
  obtain ⟨references, _, -, run⟩ := bind_eq_ok.mp run
  cases run
  rfl

theorem readPlainCell_of_some {column : Column String} {read : PayloadReader (Nat × Value String)}
    (known : readPlain column.type = some read) : readPlainCell column = readSized column read := by
  have known : steps.readPlain column.type = some read := known
  unfold readPlainCell Steps.readPlainCell
  rw [known]
  rfl

theorem readPlainCell_of_none {column : Column String} (unknown : readPlain column.type = none) :
    readPlainCell column = throw (.unsupportedColumnType column.name column.type) := by
  have unknown : steps.readPlain column.type = none := unknown
  unfold readPlainCell Steps.readPlainCell
  rw [unknown]

/-- What holds of reading the types that there are, and of refusing the others, holds of
reading a cell. -/
theorem readPlainCell_cases {column : Column String} {P : PayloadReader (Cell String) → Prop}
    (some : ∀ read, readPlain column.type = some read → P (readSized column read))
    (none : P (throw (.unsupportedColumnType column.name column.type))) :
    P (readPlainCell column) := by
  cases known : readPlain column.type with
  | some read =>
      rw [readPlainCell_of_some known]
      exact some read known
  | none =>
      rw [readPlainCell_of_none known]
      exact none

/-- What is read suits the column, so that a cell can always be made of it. -/
theorem readSized_eq {column : Column String} {read : PayloadReader (Nat × Value String)}
    (suits : ∀ {s result t}, read s = .ok result t → result.2.shape = column.type.shape) :
    readSized column read = (do
      let start ← PayloadReader.position
      let (raw, value) ← read
      return ⟨column, raw, (← PayloadReader.position) - start, value⟩) := by
  funext s
  refine congrFun (bind_congr fun start => funext fun s => ?_) s
  cases run : read s with
  | error e t => rw [bind_eq_error.mpr (.inl run), bind_eq_error.mpr (.inl run)]
  | ok result t =>
      rw [bind_of_ok run, bind_of_ok run]
      refine congrFun (bind_congr fun stop => ?_) t
      exact check_makeCell (suits run) _ _

end Shapes

namespace Pool

variable {pool : Pool} {name : String}

/-- What is noted when the table of a name is made. -/
def opening (name : String) : Array Event :=
  (if (Kind.ofName? name).isNone then #[.unknownAttribute name] else #[]).push
    (.tableCreated name (columnsOf name).length)

theorem openTable_of_known (known : pool.store.containsTable name) :
    openTable name pool = .ok () pool := by
  unfold openTable
  refine bind_eq_ok.mpr ⟨pool, pool, rfl, ?_⟩
  rw [if_pos known]
  rfl

/-- A new table is noted and registered. -/
theorem openTable_of_new (new : ¬pool.store.containsTable name) :
    openTable name pool =
      .ok () ⟨pool.store.ensureTable name (columnsOf name), pool.log ++ opening name⟩ := by
  have described : Column.describe name (layoutOf name).types ((layoutOf name).map Prod.fst) =
      .ok (columnsOf name) := Column.describe_layout (layoutOf_ne_nil name) name
  have made (log : Array Event) :
      onStore (Store.makeTable name (columnsOf name)) ⟨pool.store, log⟩ =
        .ok () ⟨pool.store.ensureTable name (columnsOf name), log⟩ := by
    unfold onStore
    dsimp only
    rw [Store.makeTable_eq (columnsOf_ne_nil name) new]
  have rest (log : Array Event) :
      (do
        let columns ← Reads.plain.check (Column.describe name (layoutOf name).types
          ((layoutOf name).map Prod.fst))
        note (.tableCreated name columns.length)
        onStore (Store.makeTable name columns)) ⟨pool.store, log⟩ =
        .ok () ⟨pool.store.ensureTable name (columnsOf name),
          log.push (.tableCreated name (columnsOf name).length)⟩ :=
    bind_eq_ok.mpr ⟨_, _, Reads.check_eq_ok.mpr ⟨described, rfl⟩,
      bind_eq_ok.mpr ⟨(), _, rfl, made _⟩⟩
  unfold openTable
  refine bind_eq_ok.mpr ⟨pool, pool, rfl, ?_⟩
  rw [if_neg new]
  by_cases kind : (Kind.ofName? name).isNone
  · rw [if_pos kind]
    refine bind_eq_ok.mpr ⟨(), ⟨pool.store, pool.log.push (.unknownAttribute name)⟩, rfl, ?_⟩
    refine (rest _).trans ?_
    simp [opening, kind, ← Array.toList_inj]
  · rw [if_neg kind]
    refine (rest pool.log).trans ?_
    simp [opening, kind]

end Pool

/-- A row can always be made of the cells of a record. -/
theorem readRecord_eq (readCell : Column String → PayloadReader (Cell String)) (name : String) :
    readRecord readCell name = (do
      PayloadReader.onPool (Pool.openTable name)
      let cells ← (columnsOf name).mapM readCell
      PayloadReader.onPool (Pool.addRow name cells)) := by
  funext s
  change (PayloadReader.onPool (Pool.openTable name) >>= _) s = _
  cases opens : PayloadReader.onPool (Pool.openTable name) s with
  | error e t => rw [bind_eq_error.mpr (.inl opens), bind_eq_error.mpr (.inl opens)]
  | ok u t =>
      rw [bind_of_ok opens, bind_of_ok opens]
      cases read : (columnsOf name).mapM readCell t with
      | error e r => rw [bind_eq_error.mpr (.inl read), bind_eq_error.mpr (.inl read)]
      | ok cells r =>
          have made : Reads.plain.check (Row.make name 0 cells) r = .ok ⟨name, 0, cells⟩ r :=
            Reads.check_eq_ok.mpr
              ⟨Row.make_eq (ne_nil_of_mapM_eq_ok (columnsOf_ne_nil name) read), rfl⟩
          rw [bind_of_ok read, bind_of_ok read]
          exact bind_of_ok made

end ClassFormat.Attribute
