import Mathlib.Data.List.TakeWhile
import ClassFormat.Proofs.Attribute.Journal
import ClassFormat.Proofs.Attribute.Trail
import ClassFormat.Proofs.Constant.Measure

/-!
# Measures of attributes

The size of a cell is made up of the rows that it refers to. What an attribute has
behind its fields is no part of its row, but it is noted in the log right behind
it. `Pool.Brings` leads from one pool to a later one, over any steps of a read, and
keeps the cells of all rows in line with both.
-/
namespace ClassFormat.Attribute

/-- The number of bytes that the first event notes as unread. -/
def firstUnread : List Event → Nat
  | .unreadBytes _ _ count :: _ => count
  | _ => 0

/-- The number of bytes that are noted as unread right behind a row. -/
def unreadBehind (row : Row String) (log : List Event) : Nat :=
  firstUnread (log.dropWhile (· ≠ .attributeRow row)).tail

/-- The number of bytes that the attribute of a row has left unread. -/
def Pool.unread (pool : Pool) (row : Row String) : Nat := unreadBehind row pool.log.toList

section Log

variable {row : Row String} {log more : List Event}

theorem firstUnread_append (quiet : firstUnread more = 0) (front : List Event) :
    firstUnread (front ++ more) = firstUnread front := by
  cases front with
  | nil => exact quiet
  | cons event rest => cases event <;> rfl

/-- What is noted later is not behind a row that is in the log already. -/
theorem unreadBehind_append (told : .attributeRow row ∈ log) (quiet : firstUnread more = 0) :
    unreadBehind row (log ++ more) = unreadBehind row log := by
  have found : log.dropWhile (· ≠ .attributeRow row) ≠ [] := by
    intro none
    simpa using List.dropWhile_eq_nil_iff.mp none _ told
  rw [unreadBehind, List.dropWhile_append, if_neg (by simpa using found),
    List.tail_append_of_ne_nil found, firstUnread_append quiet, unreadBehind]

theorem unreadBehind_new (new : .attributeRow row ∉ log) (more : List Event) :
    unreadBehind row (log ++ .attributeRow row :: more) = firstUnread more := by
  have passed : log.dropWhile (· ≠ .attributeRow row) = [] := by
    refine List.dropWhile_eq_nil_iff.mpr fun event member => ?_
    simpa using fun same : event = .attributeRow row => new (same ▸ member)
  rw [unreadBehind, List.dropWhile_append, passed]
  simp

end Log

namespace Pool

/-- The second pool comes after the first one, with nothing to note about the rows
of this one. -/
structure Later (s t : Pool) : Prop where
  grown : s.store.Extends t.store
  noted : ∃ events, t.log.toList = s.log.toList ++ events ∧ firstUnread events = 0

/-- There is a cell in each column, with the measures of its value. -/
structure Fills (pool : Pool) (columns : List (Column String)) (cells : List (Cell String)) :
    Prop where
  columns : cells.map Cell.column = columns
  measured : ∀ cell ∈ cells, cell.Measured (fun _ => False) pool.store.resolve pool.unread

/-- The log tells of all rows, and the cells of each have their measures. -/
structure Tallied (pool : Pool) : Prop where
  journaled : pool.Journaled
  filled : ∀ index row, pool.store.row index = .ok row →
    pool.store.containsTable row.table ∧ pool.Fills (columnsOf row.table) row.cells

variable {r s t : Pool}

theorem tallied_empty : Tallied {} := by
  refine ⟨journaled_empty, fun index row found => ?_⟩
  have present := Store.row_eq_ok.mp found
  simp at present

theorem evolution_later : Evolution Later := by
  refine ⟨fun s => ⟨.refl _, [], (List.append_nil _).symm, rfl⟩, fun {r s t} h k => ?_⟩
  obtain ⟨events, log, quiet⟩ := h.noted
  obtain ⟨events', log', quiet'⟩ := k.noted
  refine ⟨h.grown.trans k.grown, events ++ events', ?_, ?_⟩
  · rw [log', log, List.append_assoc]
  · rw [firstUnread_append quiet', quiet]

/-- A row that is found stays what it is, in the log, too. -/
theorem Later.kept (h : s.Later t) (journaled : s.Journaled) (reference : Reference String)
    (row : Row String) (found : s.store.resolve reference = .ok row) :
    t.store.resolve reference = .ok row ∧ t.unread row = s.unread row := by
  obtain ⟨events, log, quiet⟩ := h.noted
  have told := mem_added.mp ((journaled.row_iff _ row).mp (Store.row_of_resolve found)).1
  exact ⟨h.grown.resolve found, by rw [unread, log, unreadBehind_append told quiet, unread]⟩

namespace Fills

variable {columns : List (Column String)} {cells : List (Cell String)}

theorem later (h : s.Fills columns cells) (later : s.Later t) (journaled : s.Journaled) :
    t.Fills columns cells :=
  ⟨h.columns, fun cell member => (h.measured cell member).mono (later.kept journaled)⟩

theorem nil (pool : Pool) : pool.Fills [] [] := ⟨rfl, fun _ member => (List.not_mem_nil member).elim⟩

theorem cons {cell : Cell String}
    (here : cell.Measured (fun _ => False) s.store.resolve s.unread) (h : s.Fills columns cells) :
    s.Fills (cell.column :: columns) (cell :: cells) :=
  ⟨by rw [List.map_cons, h.columns], List.forall_mem_cons.mpr ⟨here, h.measured⟩⟩

end Fills

/-- The references lead to rows of so much weight, as each has by its size and by
what is left unread behind it. -/
def Weighs (pool : Pool) (weight : Nat → Nat → Nat) (references : List (Reference String))
    (total : Nat) : Prop :=
  ∃ rows, references.mapM pool.store.resolve = .ok rows ∧
    (rows.map fun row => weight row.size (pool.unread row)).sum = total

namespace Weighs

variable {weight : Nat → Nat → Nat} {references : List (Reference String)}

theorem nil (pool : Pool) (weight : Nat → Nat → Nat) : pool.Weighs weight [] 0 := ⟨[], rfl, rfl⟩

/-- The first reference has been there since an earlier pool. -/
theorem cons (journaled : s.Journaled) (later : s.Later t) {reference : Reference String}
    {row : Row String} (found : s.store.resolve reference = .ok row) {n m : Nat}
    (here : weight row.size (s.unread row) = n) (rest : t.Weighs weight references m) :
    t.Weighs weight (reference :: references) (n + m) := by
  obtain ⟨rows, others, total⟩ := rest
  obtain ⟨found, same⟩ := later.kept journaled reference row found
  refine ⟨row :: rows, ?_, ?_⟩
  · rw [List.mapM_cons, found, others]
    rfl
  · rw [List.map_cons, List.sum_cons, same, here, total]

end Weighs

/-- The rows of a later pool are in line if those are that it has in addition. -/
theorem Tallied.later (h : s.Tallied) (later : s.Later t) (journaled : t.Journaled)
    (added : ∀ index row, t.store.row index = .ok row → s.store.row index = .ok row ∨
      t.store.containsTable row.table ∧ t.Fills (columnsOf row.table) row.cells) : t.Tallied := by
  refine ⟨journaled, fun index row found => ?_⟩
  rcases added index row found with old | new
  · obtain ⟨opened, fills⟩ := h.filled index row old
    exact ⟨later.grown.tables _ opened, fills.later later h.journaled⟩
  · exact new

/-- From one pool to a later one, all rows stay in line with the log, and something
is known in the end. -/
structure Brings (s t : Pool) (fact : Prop) : Prop where
  later : s.Later t
  tallied : s.Tallied → t.Tallied ∧ fact

namespace Brings

variable {first second fact : Prop}

theorem refl (s : Pool) (known : fact) : s.Brings s fact :=
  ⟨evolution_later.refl s, fun tallied => ⟨tallied, known⟩⟩

/-- What is known in between is of use at the end as far as rows are kept. -/
theorem trans (h : r.Brings s first) (k : s.Brings t second)
    (both : s.Tallied → first → second → fact) : r.Brings t fact := by
  refine ⟨evolution_later.trans h.later k.later, fun tallied => ?_⟩
  obtain ⟨between, one⟩ := h.tallied tallied
  obtain ⟨behind, two⟩ := k.tallied between
  exact ⟨behind, both between one two⟩

theorem imp (h : s.Brings t first) (known : first → fact) : s.Brings t fact :=
  ⟨h.later, fun tallied => ⟨(h.tallied tallied).1, known (h.tallied tallied).2⟩⟩

theorem evolution : Evolution fun s t => Brings s t True :=
  ⟨fun s => .refl s trivial, fun h k => h.trans k fun _ _ _ => trivial⟩

end Brings

theorem noted_openTable {name : String} (opened : openTable name s = .ok () t) :
    ∃ events, t.log.toList = s.log.toList ++ events ∧ firstUnread events = 0 := by
  by_cases known : s.store.containsTable name
  · rw [openTable_of_known known] at opened
    cases opened
    exact (evolution_later.refl s).noted
  rw [openTable_of_new known] at opened
  cases opened
  refine ⟨(opening name).toList, Array.toList_append, ?_⟩
  by_cases kind : (Kind.ofName? name).isNone <;> simp [opening, kind, firstUnread]

/-- No row comes or goes with a table. -/
theorem brings_openTable (name : String) (s : Pool) :
    s.Brings (stateAfter (openTable name) s) True := by
  obtain ⟨log, opened⟩ := exists_openTable name s
  have journaled := respected_journaled.opened name s
  rw [stateAfter_of_ok opened] at journaled ⊢
  have later : s.Later ⟨s.store.ensureTable name (columnsOf name), log⟩ :=
    ⟨Store.extends_ensureTable s.store name (columnsOf name), noted_openTable opened⟩
  refine ⟨later, fun tallied => ⟨?_, trivial⟩⟩
  refine tallied.later later (journaled tallied.journaled) fun index row found => .inl ?_
  rw [Store.row_eq_ok] at found ⊢
  rwa [Store.rows_ensureTable] at found

/-- A row that is refused leaves nothing behind. -/
theorem brings_of_addRow_eq_error {name : String} {cells : List (Cell String)}
    {e : DecodingError} (len : cells.length = (columnsOf name).length)
    (failed : addRow name cells s = .error e t) : s.Brings t True := by
  obtain ⟨cause, refused⟩ := of_addRow_eq_error failed
  have store := Store.of_addRow_eq_error refused
  have log := log_of_addRow_eq_error failed
  have later : s.Later t := by
    refine ⟨?_, [], by rw [log, List.append_nil], rfl⟩
    rw [store]
    exact ⟨fun _ table => table, fun _ _ row => row⟩
  refine ⟨later, fun tallied => ⟨?_, trivial⟩⟩
  have journaled := tallied.journaled.addRow len
  rw [stateAfter_of_error failed] at journaled
  refine tallied.later later journaled fun index row found => .inl ?_
  rwa [store] at found

theorem noted_of_noteUnread {name : String} {offset count : Nat} {u : Unit}
    (noted : noteUnread name offset count s = .ok u t) :
    ∃ events, t.log.toList = s.log.toList ++ events ∧ firstUnread events = count := by
  unfold noteUnread at noted
  split at noted
  next some =>
    cases noted
    exact ⟨[.unreadBytes name offset count], by simp, rfl⟩
  next none =>
    cases noted
    exact ⟨[], by simp, by simp only [firstUnread]; omega⟩

/-- A row is registered, and what is left behind it is noted. -/
theorem brings_row {name other : String} {cells : List (Cell String)} {offset count : Nat}
    {reference : Reference String} {u : Unit} (opened : s.store.containsTable name)
    (added : addRow name cells s = .ok reference r)
    (noted : noteUnread other offset count r = .ok u t) :
    s.Later t ∧ (s.Tallied → s.Fills (columnsOf name) cells → t.Tallied ∧
      ∃ row, t.store.resolve reference = .ok row ∧ row.cells = cells ∧ t.unread row = count) := by
  obtain ⟨index, stored, rfl, log⟩ := addRow_eq_ok.mp added
  obtain ⟨more, log', counted⟩ := noted_of_noteUnread noted
  have store := store_of_noteUnread noted
  obtain ⟨grown, found⟩ := Store.resolve_of_addRow stored
  obtain ⟨-, placed⟩ := Store.addRow_eq_ok.mp stored
  have log : t.log.toList = s.log.toList ++ .attributeRow ⟨name, index, cells⟩ :: more := by
    rw [log', log, Array.toList_push, List.append_assoc, List.singleton_append]
  have later : s.Later t := ⟨store ▸ grown, _, log, rfl⟩
  refine ⟨later, fun tallied fills => ⟨?_, ⟨name, index, cells⟩, store ▸ found, rfl, ?_⟩⟩
  · have len : cells.length = (columnsOf name).length := by
      rw [← fills.columns, List.length_map]
    have journaled := tallied.journaled.addRow len
    rw [stateAfter_of_ok added] at journaled
    refine tallied.later later (journaled.noteUnread noted) fun i row here => ?_
    rw [store] at here
    rcases (Store.row_eq_ok_of_addRowAt placed).mp here with old | ⟨-, rfl⟩
    · exact .inl old
    · exact .inr ⟨later.grown.tables name opened, fills.later later tallied.journaled⟩
  · have new : .attributeRow ⟨name, index, cells⟩ ∉ s.log.toList := by
      intro told
      have old := (tallied.journaled.row_iff index _).mpr ⟨mem_added.mpr told, rfl⟩
      have fresh := (Store.addRowAt_eq_ok.mp placed).1
      exact fresh (Store.mem_rows_iff.mpr ⟨_, old⟩)
    rw [unread, log, unreadBehind_new new, counted]

/-- The row that is planted for a name has the cells that were made for it. -/
theorem brings_plantRow {name other : String} {cells : Planter (List (Cell String))}
    {offset count n : Nat} {reference : Reference String} {u : Unit}
    (planted : plantRow name cells s = .ok reference r)
    (noted : noteUnread other offset count r = .ok u t)
    (made : ∀ {v made w}, cells v = .ok made w →
      v.Brings w (w.Fills (columnsOf name) made ∧ (made.map Cell.size).sum = n)) :
    s.Brings t (∃ row, t.store.resolve reference = .ok row ∧ row.size = n ∧ t.unread row = count) := by
  obtain ⟨_, v, opened, planted⟩ := bind_eq_ok.mp planted
  obtain ⟨cells, w, run, added⟩ := bind_eq_ok.mp planted
  have front := brings_openTable name s
  rw [stateAfter_of_ok opened] at front
  have filled := made run
  have present : w.store.containsTable name := by
    refine filled.later.grown.tables name ?_
    rw [store_of_openTable opened]
    exact Store.containsTable_ensureTable s.store name (columnsOf name)
  have both := front.trans filled fun _ _ known => known
  obtain ⟨later, registered⟩ := brings_row present added noted
  refine ⟨evolution_later.trans both.later later, fun tallied => ?_⟩
  obtain ⟨between, fills, size⟩ := both.tallied tallied
  obtain ⟨behind, row, found, rfl, left⟩ := registered between fills
  exact ⟨behind, row, found, size, left⟩

end Pool

section Trees

variable {s t : Pool}

/-- A field without records measures what it was written with. -/
theorem Plain.measured {encoded : List UInt8 → Prop}
    {resolve : Reference String → Except TableError (Row String)} {unread : Row String → Nat}
    {field : Plain} {column : Column String} (type : field.type = column.type) :
    (field.cell column).Measured encoded resolve unread := by
  unfold cell
  cases field with
  | byte n => exact .byte n type.symm
  | short n => exact .short n type.symm
  | word n => exact .word n type.symm
  | bytes list =>
      have length : (Plain.bytes list).encode.length = 4 + list.length := by simp [encode]
      rw [length]
      exact .bytes list type.symm
  | shorts numbers =>
      have length : (Plain.shorts numbers).encode.length = 2 + 2 * numbers.length := by
        simp [encode, Nat.mul_comm]
      rw [length]
      exact .shorts numbers type.symm
  | raw list => exact .raw list type.symm

theorem Record.fills {record : Record} {columns : List (Column String)} (pool : Pool)
    (types : record.map Plain.type = columns.map Column.type) :
    pool.Fills columns (record.cells columns) ∧
      ((record.cells columns).map Cell.size).sum = record.encode.length := by
  induction record generalizing columns with
  | nil =>
      cases columns with
      | nil => exact ⟨.nil pool, rfl⟩
      | cons => cases types
  | cons field record ih =>
      cases columns with
      | nil => cases types
      | cons column columns =>
          obtain ⟨type, types⟩ := List.cons.inj types
          obtain ⟨fills, size⟩ := ih types
          refine ⟨.cons (Plain.measured type) fills, ?_⟩
          change field.encode.length + _ = (field.encode ++ Record.encode record).length
          rw [List.length_append, ← size]
          rfl

theorem Record.plant_brings {entry : Entry} {record : Record} (fits : record.Fits (fieldsOf entry))
    {reference : Reference String} (planted : record.plant entry s = .ok reference t) :
    s.Brings t (∃ row, t.store.resolve reference = .ok row ∧ row.size = record.encode.length) := by
  have types := fits.1.trans (map_type_columnsOf_tableName entry).symm
  have nothing : noteUnread entry.tableName 0 0 t = .ok () t := rfl
  have planted := Pool.brings_plantRow planted nothing fun {v made w} run => by
    obtain ⟨rfl, rfl⟩ := pure_eq_ok.mp run
    exact .refl v (Record.fills v types)
  refine planted.imp ?_
  rintro ⟨row, found, size, -⟩
  exact ⟨row, found, size⟩

theorem Record.plantAll_brings {entry : Entry} {records : List Record}
    (fits : ∀ record ∈ records, record.Fits (fieldsOf entry)) {references : List (Reference String)}
    (planted : records.mapM (Record.plant entry) s = .ok references t) :
    s.Brings t (t.Weighs (fun size _ => size) references
      (records.flatMap Record.encode).length) := by
  induction records generalizing s references with
  | nil =>
      obtain ⟨rfl, rfl⟩ := mapM_nil_eq_ok.mp planted
      exact .refl s (.nil s _)
  | cons record records ih =>
      obtain ⟨reference, r, rest, first, others, rfl⟩ := mapM_cons_eq_ok.mp planted
      obtain ⟨fit, fits⟩ := List.forall_mem_cons.mp fits
      have behind := ih fits others
      refine (Record.plant_brings fit first).trans behind ?_
      rintro tallied ⟨row, found, size⟩ weighs
      rw [List.flatMap_cons, List.length_append]
      exact .cons tallied.journaled behind.later found size weighs

variable {named : Nat → String → Prop}

mutual

theorem Field.plant_brings : ∀ {field : Field} {offset : Nat} {column : Column String}
    {cell : Cell String} {s t : Pool}, field.type = column.type → field.Fits named →
    field.plant offset column s = .ok cell t →
    s.Brings t (cell.column = column ∧
      cell.Measured (fun _ => False) t.store.resolve t.unread ∧ cell.size = field.encode.length)
  | .plain field, _, _, _, _, _, type, _, h => by
      obtain ⟨rfl, rfl⟩ := pure_eq_ok.mp h
      exact .refl _ ⟨rfl, Plain.measured type, rfl⟩
  | .entries entry records, _, column, _, _, _, type, fits, h => by
      obtain ⟨references, r, planted, done⟩ := bind_eq_ok.mp h
      obtain ⟨rfl, rfl⟩ := pure_eq_ok.mp done
      refine (Record.plantAll_brings fits.2 planted).imp ?_
      rintro ⟨rows, found, total⟩
      rw [← length_of_mapM_eq_ok planted, ← total]
      refine ⟨rfl, .entries type.symm found, ?_⟩
      rw [Field.encode, List.length_append, BigEndian.length_digits, ← total]
  | .attributes trees, _, column, _, _, _, type, fits, h => by
      obtain ⟨references, r, planted, done⟩ := bind_eq_ok.mp h
      obtain ⟨rfl, rfl⟩ := pure_eq_ok.mp done
      refine (plantTrees_brings fits.2 planted).imp ?_
      rintro ⟨len, rows, found, total⟩
      rw [← len, ← total]
      refine ⟨rfl, .attributes type.symm found, ?_⟩
      rw [Field.encode, List.length_append, BigEndian.length_digits, ← total]

theorem plantFields_brings : ∀ {fields : List Field} {offset : Nat}
    {columns : List (Column String)} {cells : List (Cell String)} {s t : Pool},
    FieldsFit named fields (columns.map Column.type) →
    plantFields offset fields columns s = .ok cells t →
    s.Brings t (t.Fills columns cells ∧
      (cells.map Cell.size).sum = (encodeFields fields).length)
  | [], _, [], _, _, _, _, h => by
      obtain ⟨rfl, rfl⟩ := pure_eq_ok.mp h
      exact .refl _ ⟨.nil _, rfl⟩
  | [], _, _ :: _, _, _, _, fits, _ => fits.elim
  | _ :: _, _, [], _, _, _, fits, _ => fits.elim
  | field :: fields, _, column :: columns, _, _, _, ⟨type, fit, fits⟩, h => by
      obtain ⟨cell, r, first, h⟩ := bind_eq_ok.mp h
      obtain ⟨cells, u, others, done⟩ := bind_eq_ok.mp h
      obtain ⟨rfl, rfl⟩ := pure_eq_ok.mp done
      have behind := plantFields_brings fits others
      refine (Field.plant_brings type fit first).trans behind ?_
      rintro tallied ⟨rfl, measured, size⟩ ⟨fills, sizes⟩
      refine ⟨.cons (measured.mono (behind.later.kept tallied.journaled)) fills, ?_⟩
      rw [List.map_cons, List.sum_cons, encodeFields, List.length_append, size, sizes]

theorem Tree.plant_brings : ∀ {tree : Tree} {offset : Nat} {reference : Reference String}
    {s t : Pool}, tree.Fits named → tree.plant offset s = .ok reference t →
    s.Brings t (∃ row, t.store.resolve reference = .ok row ∧
      6 + row.size + t.unread row = tree.encode.length)
  | .node index name fields unread, _, _, _, _, fits, h => by
      obtain ⟨reference, u, planted, behind⟩ := bind_eq_ok.mp h
      obtain ⟨_, v, noted, done⟩ := bind_eq_ok.mp behind
      obtain ⟨rfl, rfl⟩ := pure_eq_ok.mp done
      have types := columnsOf_structure name ▸ fits.2.1
      refine (Pool.brings_plantRow planted noted fun run => plantFields_brings types run).imp ?_
      rintro ⟨row, found, size, left⟩
      refine ⟨row, found, ?_⟩
      rw [size, left, length_encode, Tree.payload, List.length_append, Header.size, Nat.add_assoc]

theorem plantTrees_brings : ∀ {trees : List Tree} {offset : Nat}
    {references : List (Reference String)} {s t : Pool}, TreesFit named trees →
    plantTrees offset trees s = .ok references t →
    s.Brings t (references.length = trees.length ∧
      t.Weighs (fun size unread => 6 + size + unread) references (encodeTrees trees).length)
  | [], _, _, _, _, _, h => by
      obtain ⟨rfl, rfl⟩ := pure_eq_ok.mp h
      exact .refl _ ⟨rfl, .nil _ _⟩
  | tree :: trees, _, _, _, _, ⟨fit, fits⟩, h => by
      obtain ⟨reference, r, first, h⟩ := bind_eq_ok.mp h
      obtain ⟨rest, u, others, done⟩ := bind_eq_ok.mp h
      obtain ⟨rfl, rfl⟩ := pure_eq_ok.mp done
      have behind := plantTrees_brings fits others
      refine (Tree.plant_brings fit first).trans behind ?_
      rintro tallied ⟨row, found, size⟩ ⟨len, weighs⟩
      rw [encodeTrees_cons, List.length_append, List.length_cons, List.length_cons, len]
      exact ⟨rfl, .cons tallied.journaled behind.later found size weighs⟩

end

end Trees

namespace Pool

variable {named : Nat → String → Prop} {constants : Constant.Pool} {s t : Pool} {n : Nat}
  {e : DecodingError}

theorem Step.brings (h : Step named s n t) : s.Brings t True := by
  cases h with
  | table name => exact brings_openTable name s
  | entry fits planted => exact (Record.plant_brings fits planted).imp fun _ => trivial
  | tree fits planted => exact (Tree.plant_brings fits planted).imp fun _ => trivial

theorem Trail.brings (h : Trail named s n t) : s.Brings t True := by
  induction h with
  | stay => exact .refl _ trivial
  | step _ last _ ih => exact Brings.evolution.trans ih last.brings

theorem Stops.brings (h : Stops constants e s t) : s.Brings t True := by
  cases h with
  | elsewhere => exact .refl _ trivial
  | refused _ len failed => exact brings_of_addRow_eq_error len failed

theorem Tallied.measured (h : s.Tallied) (sound : s.Sound) :
    s.store.Measured (fun _ => False) s.unread := by
  refine ⟨fun index row found => ?_, fun index row found => (h.filled index row found).2.measured⟩
  obtain ⟨opened, fills⟩ := h.filled index row found
  obtain ⟨table, here⟩ := Store.exists_table? opened
  obtain ⟨member, tag⟩ := Store.table_of_table? here
  exact ⟨table, here, by rw [fills.columns, sound.shaped table member, tag]⟩

end Pool

variable {constants : Constant.Pool} {α : Type}

theorem Payload.brings {read : PayloadReader α} (goes : Payload.Goes constants read)
    (s : Payload) : s.pool.Brings (stateAfter read s).pool True := by
  rcases goes.stateAfter s with ⟨_, trail, -⟩ | ⟨_, _, ⟨_, trail, -⟩, stops, -⟩
  · exact trail.brings
  · exact Pool.Brings.evolution.trans trail.brings stops.brings

theorem Scan.brings {source : Source} {read : ScanReader α}
    (goes : Scan.Goes source constants read) (s : Scan) :
    s.pool.Brings (stateAfter read s).pool True := by
  rcases goes.stateAfter s with ⟨_, trail, -⟩ | ⟨_, _, ⟨_, trail, -⟩, stops⟩
  · exact trail.brings
  · exact Pool.Brings.evolution.trans trail.brings stops.brings

theorem brings_readSubRecord (constants : Constant.Pool) (name : String) (s : Payload) :
    s.pool.Brings (stateAfter (readSubRecord constants name) s).pool True := by
  have lists := Payload.goes_nestedList constants maxNesting
  cases run : readSubRecord constants name s with
  | ok reference t =>
      rw [stateAfter_of_ok run]
      obtain ⟨fields, ⟨fits, -, -⟩, -, planted⟩ :=
        (readFields_eq_ok (nestedList_readsTrees constants maxNesting)).mp run
      rw [← columnsOf_structure] at fits
      have nothing : noteUnread name 0 0 t.pool = .ok () t.pool := rfl
      have row := Pool.brings_plantRow planted nothing fun run => plantFields_brings fits run
      exact row.imp fun _ => trivial
  | error e t =>
      rw [stateAfter_of_error run]
      obtain ⟨r, ⟨_, trail, -⟩, stops, -⟩ :=
        Payload.stops_of_readRecord (Payload.goes_readCell lists) run
      exact Pool.Brings.evolution.trans trail.brings stops.brings

theorem Call.brings (call : Call) : Always (fun s t => s.Brings t True) call.run := by
  have law := Pool.Brings.evolution
  cases call with
  | attributes source constants count offset =>
      intro pool
      rw [run, Pool.stateAfter_onScan]
      exact Scan.brings (Scan.goes_readAttributes source constants count) ⟨pool, offset⟩
  | subAttributes constants count window =>
      refine .bind law (fun pool => ?_) fun _ => .pure law _
      rw [Pool.Respected.pool_stateAfter_onPayload]
      exact Payload.brings (Payload.goes_nestedList constants maxNesting count) ⟨pool, window⟩
  | subRecord constants name window =>
      refine .bind law (fun pool => ?_) fun _ => .pure law _
      rw [Pool.Respected.pool_stateAfter_onPayload]
      exact brings_readSubRecord constants name ⟨pool, window⟩

namespace Session

theorem pool_next (session : Session) (call : Call) :
    (session.next call).pool = stateAfter call.run session.pool := by
  unfold next stateAfter
  cases call.run session.pool <;> rfl

theorem run_tallied (calls : List Call) : (run calls).pool.Tallied := by
  induction calls using List.reverseRecOn with
  | nil => exact Pool.tallied_empty
  | append_singleton calls call ih =>
      rw [run, List.foldl_append, List.foldl_cons, List.foldl_nil, ← run, pool_next]
      exact ((call.brings _).tallied ih).1

end Session

/-- The raw number and the size of every cell follow from its value, in pools of
constants and after any calls that read attributes, failed ones included. The size
of a list of attributes is made up of these, and is exact if they have left nothing
unread. -/
theorem cells_measured :
    (∀ source count start pool, (Constant.Pool.read source count start).result = .ok pool →
      pool.store.Measured (Constant.Pool.Encoded source) fun _ => 0) ∧
    ∀ calls, (Session.run calls).pool.store.Measured (fun _ => False)
        (Session.run calls).pool.unread ∧
      ∀ index row, (Session.run calls).pool.store.row index = .ok row →
        ∀ cell ∈ row.cells, cell.column.type = .attributes →
          ∃ references rows, cell.value = .references references ∧
            references.mapM (Session.run calls).pool.store.resolve = .ok rows ∧
            cell.raw = references.length ∧
            2 + (rows.map fun row => 6 + row.size).sum ≤ cell.size ∧
            (cell.size = 2 + (rows.map fun row => 6 + row.size).sum ↔
              ∀ row ∈ rows, (Session.run calls).pool.unread row = 0) := by
  constructor
  · intro source count start pool ok
    exact Constant.Pool.measured_of_read ok
  · intro calls
    have measured := (Session.run_tallied calls).measured (Session.run_sound calls)
    exact ⟨measured, fun index row found cell member =>
      (measured.cells index row found cell member).of_attributes⟩

def constantBytes : Source := ⟨(Constant.encodeAll Constant.sampleContents).toArray⟩

/-- The sample, and one attribute more than there is. -/
def oneTooMany : List Call := [.attributes ⟨(encodeTrees sampleTrees).toArray⟩ sampleConstants 5 0]

/-- The sample constants, and the rows of the sample of attributes, of which the last
one has a cell of attributes. -/
theorem cells_measured_oneTooMany :
    (∃ pool, (Constant.Pool.read constantBytes 8 0).result = .ok pool ∧
      pool.store.Measured (Constant.Pool.Encoded constantBytes) fun _ => 0) ∧
    (Session.run oneTooMany).failed = true ∧
    (Session.run oneTooMany).pool.store.Measured (fun _ => False)
      (Session.run oneTooMany).pool.unread ∧
    ∃ row cell, (Session.run oneTooMany).pool.store.row 8 = .ok row ∧ cell ∈ row.cells ∧
      cell.column.type = .attributes ∧
      ∃ references rows, cell.value = .references references ∧
        references.mapM (Session.run oneTooMany).pool.store.resolve = .ok rows ∧
        cell.raw = references.length ∧
        2 + (rows.map fun row => 6 + row.size).sum ≤ cell.size ∧
        (cell.size = 2 + (rows.map fun row => 6 + row.size).sum ↔
          ∀ row ∈ rows, (Session.run oneTooMany).pool.unread row = 0) := by
  have read : (do
      let _ ← (Constant.Pool.read constantBytes 8 0).result
      return () : Except DecodingError Unit) = .ok () := by decide +kernel
  have failed : (Session.run oneTooMany).failed = true := by decide +kernel
  have last : (do
      let row ← (Session.run oneTooMany).pool.store.row 8
      return row.cells.any fun cell => cell.column.type = .attributes : Except TableError Bool) =
        .ok true := by decide +kernel
  obtain ⟨pool, ok, -⟩ := Except.map_eq_ok.mp read
  obtain ⟨row, found, some⟩ := Except.map_eq_ok.mp last
  obtain ⟨cell, member, type⟩ := List.any_eq_true.mp some
  have type := of_decide_eq_true type
  obtain ⟨measured, cells⟩ := cells_measured.2 oneTooMany
  exact ⟨⟨pool, ok, cells_measured.1 _ _ _ pool ok⟩, failed, measured, row, cell, found, member,
    type, cells 8 row found cell member type⟩

end ClassFormat.Attribute
