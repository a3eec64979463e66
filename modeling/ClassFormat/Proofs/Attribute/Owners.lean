import Mathlib.Data.List.Perm.Basic
import ClassFormat.Proofs.Attribute.Journal
import ClassFormat.Proofs.Attribute.RoundTrip
import ClassFormat.Proofs.Attribute.Typing

/-!
# Whose rows the entries are

As long as no call fails, every row of a pool is referred to once, by a cell of
another row or by what was returned. So a row in the table of an entry record stands
in a cell of the attribute that lists these records. The table of the records is
found by its name alone, however, and an attribute of a file may have this name, too.
Its row is in the same table, and stands in a list of attributes.
-/
namespace ClassFormat

/-- The attribute that lists entry records. -/
def Entry.owner : Entry → Attribute.Kind
  | .exceptionHandler => .code
  | .innerClass => .innerClasses
  | .lineNumber => .lineNumberTable
  | .localVariable => .localVariableTable
  | .localVariableType => .localVariableTypeTable
  | .bootstrapMethod => .bootstrapMethods
  | .methodParameter => .methodParameters

theorem Entry.tableName_inj {entry other : Entry} (same : entry.tableName = other.tableName) :
    entry = other := by
  cases entry <;> cases other <;> simp_all [Entry.tableName]

/-- The references in the columns of a type, cell after cell. -/
def Row.citedIn (type : ColumnType) (row : Row String) : List (Reference String) :=
  row.cells.flatMap fun cell => if cell.column.type = type then cell.value.cited else []

theorem Row.citedIn_sublist (type : ColumnType) (row : Row String) :
    (row.citedIn type).Sublist row.cited := by
  refine List.Sublist.flatMap_right row.cells fun cell _ => ?_
  split
  · exact .refl _
  · exact List.nil_sublist _

theorem Row.exists_cell_of_citedIn {type : ColumnType} {row : Row String}
    {reference : Reference String} (member : reference ∈ row.citedIn type) :
    ∃ (k : Nat) (cell : Cell String), row.cells[k]? = some cell ∧ cell.column.type = type ∧
      reference ∈ cell.value.cited := by
  obtain ⟨cell, present, inside⟩ := List.mem_flatMap.mp member
  obtain ⟨k, here⟩ := List.getElem?_of_mem present
  split at inside
  next same => exact ⟨k, cell, here, same, inside⟩
  next => cases inside

namespace Attribute

theorem Kind.eq_owner {kind : Kind} {entry : Entry} (lists : .entries entry ∈ kind.layout.types) :
    kind = entry.owner := by
  cases kind with
  | ofEntry other => cases other <;> simp [Kind.layout, Entry.layout, Layout.types] at lists
  | _ => cases entry <;> simp_all [Kind.layout, Layout.types, rawLayout, Entry.owner]

theorem Kind.eq_code {kind : Kind} (lists : .attributes ∈ kind.layout.types) : kind = .code := by
  cases kind with
  | ofEntry other => cases other <;> simp [Kind.layout, Entry.layout, Layout.types] at lists
  | _ => simp_all [Kind.layout, Layout.types, rawLayout]

/-- A column that is not raw is one of the kind of the name. -/
theorem exists_kind_of_mem {name : String} {type : ColumnType} (member : type ∈ typesOf name)
    (decoded : type ≠ .raw) : ∃ kind : Kind, kind.name = name ∧ type ∈ kind.layout.types := by
  unfold typesOf layoutOf at member
  cases found : Kind.ofName? name with
  | none =>
      rw [found] at member
      exact absurd (List.mem_singleton.mp member) decoded
  | some kind =>
      rw [found] at member
      have same := List.find?_some (p := fun kind : Kind => kind.name == name) found
      exact ⟨kind, beq_iff_eq.mp same, member⟩

theorem eq_owner_of_mem {name : String} {entry : Entry} (member : .entries entry ∈ typesOf name) :
    name = entry.owner.name := by
  obtain ⟨kind, rfl, lists⟩ := exists_kind_of_mem member (by simp)
  rw [Kind.eq_owner lists]

theorem eq_code_of_mem {name : String} (member : .attributes ∈ typesOf name) :
    name = Kind.code.name := by
  obtain ⟨kind, rfl, lists⟩ := exists_kind_of_mem member (by simp)
  rw [Kind.eq_code lists]

namespace Pool

variable {pool : Pool} {row : Row String}

theorem Filled.suits (filled : pool.Filled row) :
    ∀ cell ∈ row.cells, cell.column.Suits cell.value ∧ cell.column ∈ columnsOf row.table := by
  have fills := filled.fills
  generalize columnsOf row.table = columns at fills
  generalize row.cells = cells at fills
  induction fills with
  | nil => simp
  | @cons column cell columns cells first _ ih =>
      refine List.forall_mem_cons.mpr ⟨?_, fun other member => ?_⟩
      · rw [first.own]
        exact ⟨first.suits, List.mem_cons_self⟩
      · obtain ⟨suits, listed⟩ := ih other member
        exact ⟨suits, List.mem_cons_of_mem column listed⟩

/-- Only rows of one table refer to anything in the columns of a type. -/
theorem Filled.citedIn_eq_nil (filled : pool.Filled row) {type : ColumnType}
    (other : type ∉ typesOf row.table) : row.citedIn type = [] := by
  refine List.flatMap_eq_nil_iff.mpr fun cell member => if_neg fun same => other ?_
  rw [← map_type_columnsOf, ← same]
  exact List.mem_map_of_mem (filled.suits cell member).2

/-- The references into the table of an entry record stand in the column of these
records, or in a column of attributes. -/
theorem Filled.cited_perm (filled : pool.Filled row) (entry : Entry) :
    (row.cited.filter fun reference => reference.table = some entry.tableName).Perm
      (row.citedIn (.entries entry) ++ (row.citedIn .attributes).filter fun reference =>
        reference.table = some entry.tableName) := by
  unfold Row.cited Row.citedIn
  rw [List.filter_flatMap, List.filter_flatMap]
  refine .trans (.of_eq (List.flatMap_congr fun cell member => ?_))
    (List.flatMap_append_perm _ _ _).symm
  obtain ⟨⟨shape, homed⟩, -⟩ := filled.suits cell member
  cases type : cell.column.type with
  | attributes => simp
  | entries other =>
      have homed := homed other.tableName (by rw [type]; rfl)
      by_cases same : other = entry
      · subst same
        simpa using homed
      · have apart : other.tableName ≠ entry.tableName := fun h => same (Entry.tableName_inj h)
        have elsewhere :
            ∀ reference ∈ cell.value.cited, reference.table ≠ some entry.tableName := by
          intro reference member
          rw [homed reference member]
          simpa using apart
        simpa [same] using elsewhere
  | _ =>
      have none : cell.value.cited = [] := by
        rw [type] at shape
        cases value : cell.value <;> simp_all [Value.shape, ColumnType.shape, Value.cited,
          Value.references?]
      simp [none]

/-- The rows that are new are each referred to once, by the new rows or by what is
given. -/
def Settled (s t : Pool) (given : List (Reference String)) : Prop :=
  ∃ rows, t.added = s.added ++ rows ∧
    (rows.flatMap Row.cited ++ given).Perm (rows.map Row.reference)

namespace Settled

variable {r s t : Pool} {given more : List (Reference String)}

theorem of_added_eq (same : t.added = s.added) : Settled s t [] :=
  ⟨[], by rw [same, List.append_nil], .refl _⟩

theorem trans (h : Settled r s given) (k : Settled s t more) : Settled r t (given ++ more) := by
  obtain ⟨rows, first, once⟩ := h
  obtain ⟨others, second, once'⟩ := k
  refine ⟨rows ++ others, by rw [second, first, List.append_assoc], ?_⟩
  rw [List.flatMap_append, List.map_append]
  refine .trans ?_ (once.append once')
  rw [List.append_assoc, List.append_assoc]
  refine .append_left _ ?_
  rw [← List.append_assoc, ← List.append_assoc]
  exact .append_right _ List.perm_append_comm

/-- A new row takes what its cells refer to. -/
theorem addRow {name : String} {cells : List (Cell String)} {reference : Reference String}
    (before : Settled r s (Ledger.cited cells))
    (run : Pool.addRow name cells s = .ok reference t) : Settled r t [reference] := by
  obtain ⟨index, -, rfl, log⟩ := addRow_eq_ok.mp run
  obtain ⟨rows, first, once⟩ := before
  let row : Row String := ⟨name, index, cells⟩
  have added : t.added = s.added ++ [row] := by
    rw [Pool.added, Pool.added, log]
    simp [Event.added?, row]
  refine ⟨rows ++ [row], by rw [added, first, List.append_assoc], ?_⟩
  rw [List.flatMap_append, List.map_append, List.flatMap_singleton]
  exact once.append_right _

end Settled

theorem added_openTable (name : String) (pool : Pool) :
    (stateAfter (openTable name) pool).added = pool.added := by
  by_cases known : pool.store.containsTable name
  · rw [stateAfter_of_ok (openTable_of_known known)]
  · obtain ⟨log, opened⟩ := exists_openTable name pool
    rw [stateAfter_of_ok opened]
    exact (created_of_openTable known opened).2

end Pool

/-- What is new is settled, unless a read fails. -/
def Ledger.custody : Ledger := ⟨Pool.Settled, fun _ _ => True⟩

theorem Ledger.lawful_custody : Ledger.custody.Lawful where
  refl _ := .of_added_eq rfl
  trans := .trans
  loses _ := trivial
  after _ _ := trivial
  noted _ _ _ s := .of_added_eq (by simp [Pool.added, Event.added?, List.filterMap_cons])
  opened name s := .of_added_eq (Pool.added_openTable name s)
  added before _ run := before.addRow run
  refused _ _ _ := trivial

namespace Session

/-- Every row is referred to once, by a row or by what was returned. -/
def Settled (session : Session) : Prop :=
  session.failed = false → Pool.Settled {} session.pool session.returned

theorem Settled.next {session : Session} (h : session.Settled) (call : Call) :
    (session.next call).Settled := by
  have law := Ledger.lawful_custody.run call
  unfold Session.next
  cases run : call.run session.pool with
  | ok references pool =>
      obtain ⟨given, rfl, settled⟩ := law.ok run
      exact fun fine => (h fine).trans settled
  | error e pool => exact fun impossible => nomatch impossible

theorem run_settled (calls : List Call) : (run calls).Settled := by
  induction calls using List.reverseRecOn with
  | nil => exact fun _ => .of_added_eq rfl
  | append_singleton calls call ih =>
      rw [run, List.foldl_append, List.foldl_cons, List.foldl_nil, ← run]
      exact ih.next call

theorem run_journaled (calls : List Call) : (run calls).pool.Journaled :=
  of_respected Pool.respected_journaled calls Pool.journaled_empty

end Session

namespace Pool

variable {pool : Pool} {returned : List (Reference String)} {row : Row String}

theorem Journaled.rowsOf_eq (h : pool.Journaled) (name : String) :
    pool.store.rowsOf name = pool.addedTo name := by
  obtain ⟨history, consistent, held, -, registered⟩ := h
  rw [← held, consistent.rowsOf_eq, registered]
  rfl

theorem Journaled.apart (h : pool.Journaled) : (pool.added.map Row.index).Nodup := by
  obtain ⟨history, consistent, -, -, registered⟩ := h
  rw [← registered]
  exact consistent.apart

/-- The references in the lists of attributes: those in rows, and those that were
returned. -/
def listed (pool : Pool) (returned : List (Reference String)) : List (Reference String) :=
  (pool.store.rowsOf Kind.code.name).flatMap (Row.citedIn .attributes) ++ returned

/-- The cell of a row refers to the index. -/
structure CitedAt (pool : Pool) (owner : Row String) (k : Nat) (cell : Cell String) (index : Nat) :
    Prop where
  found : pool.store.row owner.index = .ok owner
  here : owner.cells[k]? = some cell
  cited : index ∈ cell.value.cited.map Reference.index

/-- A cell of entries in a row of the attribute that lists them refers to the row,
once, and no other cell of any row does. -/
structure Owned (pool : Pool) (entry : Entry) (row : Row String) (owner : Row String) (k : Nat)
    (cell : Cell String) : Prop where
  place : pool.CitedAt owner k cell row.index
  table : owner.table = entry.owner.name
  column : cell.column.type = .entries entry
  once : (cell.value.cited.map Reference.index).count row.index = 1
  only : ∀ other i another, pool.CitedAt other i another row.index →
    other = owner ∧ i = k ∧ another = cell

/-- The rows in the table of an entry record are the entries of the attributes that
list them, and the attributes that are called as this table. -/
structure EntriesListed (pool : Pool) (returned : List (Reference String)) (entry : Entry) :
    Prop where
  rows : ((pool.store.rowsOf entry.tableName).map Row.reference).Perm
    ((pool.store.rowsOf entry.owner.name).flatMap (Row.citedIn (.entries entry)) ++
      (pool.listed returned).filter fun reference => reference.table = some entry.tableName)
  owned : ∀ row ∈ pool.store.rowsOf entry.tableName, row.reference ∉ pool.listed returned →
    ∃ owner k cell, pool.Owned entry row owner k cell
  named : ∀ row ∈ pool.store.rowsOf entry.tableName, row.reference ∈ pool.listed returned →
    (pool.listed returned).count row.reference = 1 ∧
      ∀ owner k cell, pool.CitedAt owner k cell row.index → cell.column.type = .attributes

/-- What a session without failures leaves: rows that are filled, and each of them
referred to once. -/
structure Complete (pool : Pool) (returned : List (Reference String)) : Prop where
  journaled : pool.Journaled
  filled : ∀ row ∈ pool.added, pool.Filled row
  once : (pool.added.flatMap Row.cited ++ returned).Perm (pool.added.map Row.reference)

/-- Rows that give nothing may be left out. -/
theorem flatMap_addedTo {name : String} {cites : Row String → List (Reference String)}
    (none : ∀ row ∈ pool.added, row.table ≠ name → cites row = []) :
    (pool.addedTo name).flatMap cites = pool.added.flatMap cites := by
  unfold addedTo
  generalize pool.added = rows at none
  induction rows with
  | nil => rfl
  | cons row rows ih =>
      obtain ⟨first, others⟩ := List.forall_mem_cons.mp none
      rw [List.filter_cons, List.flatMap_cons]
      by_cases same : row.table = name
      · simp [same, ih others]
      · simp [same, ih others, first same]

namespace Complete

variable (complete : pool.Complete returned)

include complete

theorem citedIn_entries (entry : Entry) :
    (pool.store.rowsOf entry.owner.name).flatMap (Row.citedIn (.entries entry)) =
      pool.added.flatMap (Row.citedIn (.entries entry)) := by
  rw [complete.journaled.rowsOf_eq]
  refine flatMap_addedTo fun row member other => ?_
  exact (complete.filled row member).citedIn_eq_nil fun lists => other (eq_owner_of_mem lists)

theorem citedIn_attributes :
    (pool.store.rowsOf Kind.code.name).flatMap (Row.citedIn .attributes) =
      pool.added.flatMap (Row.citedIn .attributes) := by
  rw [complete.journaled.rowsOf_eq]
  refine flatMap_addedTo fun row member other => ?_
  exact (complete.filled row member).citedIn_eq_nil fun lists => other (eq_code_of_mem lists)

/-- The references into the table of an entry record, by the columns they stand
in. -/
theorem cited_perm (entry : Entry) :
    ((pool.added.flatMap Row.cited).filter fun reference =>
        reference.table = some entry.tableName).Perm
      (pool.added.flatMap (Row.citedIn (.entries entry)) ++
        (pool.added.flatMap (Row.citedIn .attributes)).filter fun reference =>
          reference.table = some entry.tableName) := by
  rw [List.filter_flatMap, List.filter_flatMap]
  refine .trans (List.Perm.flatMap_left _ fun row member => ?_)
    (List.flatMap_append_perm _ _ _).symm
  exact (complete.filled row member).cited_perm entry

theorem rows_perm (entry : Entry) :
    ((pool.store.rowsOf entry.tableName).map Row.reference).Perm
      ((pool.store.rowsOf entry.owner.name).flatMap (Row.citedIn (.entries entry)) ++
        (pool.listed returned).filter fun reference =>
          reference.table = some entry.tableName) := by
  have once := complete.once.filter fun reference => reference.table = some entry.tableName
  rw [List.filter_append, List.filter_map] at once
  have rows : pool.added.filter ((fun reference : Reference String =>
      decide (reference.table = some entry.tableName)) ∘ Row.reference) =
        pool.addedTo entry.tableName := by
    refine List.filter_congr fun row _ => ?_
    simp [Row.reference, Reference.typed]
  rw [complete.journaled.rowsOf_eq, ← rows, listed, complete.citedIn_entries,
    complete.citedIn_attributes, List.filter_append, ← List.append_assoc]
  exact once.symm.trans ((complete.cited_perm entry).append_right _)

theorem distinct : ((pool.added.flatMap Row.cited ++ returned).map Reference.index).Nodup := by
  have once := complete.once.map Reference.index
  rw [List.map_map] at once
  exact once.nodup_iff.mpr complete.journaled.apart

theorem cited_distinct : (pool.added.flatMap fun row => row.cited.map Reference.index).Nodup := by
  have distinct := complete.distinct
  rw [List.map_append, List.map_flatMap] at distinct
  exact (List.nodup_append.mp distinct).1

theorem listed_distinct : ((pool.listed returned).map Reference.index).Nodup := by
  refine complete.distinct.sublist (List.Sublist.map _ ?_)
  rw [listed, complete.citedIn_attributes]
  exact .append_right (List.Sublist.flatMap_right _ fun row _ => row.citedIn_sublist _) _

theorem mem_added_of_citedAt {owner : Row String} {k index : Nat} {cell : Cell String}
    (place : pool.CitedAt owner k cell index) :
    owner ∈ pool.added ∧ index ∈ owner.cited.map Reference.index := by
  refine ⟨((complete.journaled.row_iff _ _).mp place.found).1, ?_⟩
  obtain ⟨reference, member, same⟩ := List.mem_map.mp place.cited
  exact List.mem_map.mpr ⟨reference,
    List.mem_flatMap.mpr ⟨cell, List.mem_of_getElem? place.here, member⟩, same⟩

theorem citedAt_unique {owner other : Row String} {k i index : Nat} {cell another : Cell String}
    (first : pool.CitedAt owner k cell index) (second : pool.CitedAt other i another index) :
    other = owner ∧ i = k ∧ another = cell := by
  obtain ⟨each, apart⟩ := List.nodup_flatMap.mp complete.cited_distinct
  obtain ⟨known, cited⟩ := complete.mem_added_of_citedAt first
  obtain ⟨known', cited'⟩ := complete.mem_added_of_citedAt second
  have symmetric : Std.Symm
      (Function.onFun List.Disjoint fun row : Row String => row.cited.map Reference.index) :=
    ⟨fun _ _ apart index left right => apart right left⟩
  obtain rfl : other = owner := by
    by_contra different
    exact apart.forall known' known different cited' cited
  have cells := each other known
  rw [Row.cited, List.map_flatMap, List.nodup_flatMap, List.pairwise_iff_getElem] at cells
  obtain ⟨bound, rfl⟩ := List.getElem?_eq_some_iff.mp first.here
  obtain ⟨bound', rfl⟩ := List.getElem?_eq_some_iff.mp second.here
  obtain rfl : i = k := by
    rcases Nat.lt_trichotomy i k with before | same | behind
    · exact (cells.2 i k bound' bound before second.cited first.cited).elim
    · exact same
    · exact (cells.2 k i bound bound' behind first.cited second.cited).elim
  exact ⟨rfl, rfl, rfl⟩

theorem citedAt_of_citedIn {type : ColumnType} {owner : Row String} (known : owner ∈ pool.added)
    {reference : Reference String} (member : reference ∈ owner.citedIn type) :
    ∃ k cell, pool.CitedAt owner k cell reference.index ∧ cell.column.type = type := by
  obtain ⟨k, cell, here, type, inside⟩ := Row.exists_cell_of_citedIn member
  exact ⟨k, cell, ⟨(complete.journaled.row_iff _ _).mpr ⟨known, rfl⟩, here,
    List.mem_map_of_mem inside⟩, type⟩

theorem count_of_citedAt {owner : Row String} {k index : Nat} {cell : Cell String}
    (place : pool.CitedAt owner k cell index) :
    (cell.value.cited.map Reference.index).count index = 1 := by
  have known := (complete.mem_added_of_citedAt place).1
  have each := (List.nodup_flatMap.mp complete.cited_distinct).1 owner known
  rw [Row.cited, List.map_flatMap] at each
  have own := (List.nodup_flatMap.mp each).1 cell (List.mem_of_getElem? place.here)
  exact List.count_eq_one_of_mem own place.cited

theorem entriesListed (entry : Entry) : pool.EntriesListed returned entry where
  rows := complete.rows_perm entry
  owned row member unlisted := by
    have used := (complete.rows_perm entry).subset (List.mem_map_of_mem member)
    rcases List.mem_append.mp used with cited | named
    · obtain ⟨owner, known, inside⟩ := List.mem_flatMap.mp cited
      rw [complete.journaled.rowsOf_eq] at known
      obtain ⟨known, table⟩ := List.mem_filter.mp known
      obtain ⟨k, cell, place, type⟩ := complete.citedAt_of_citedIn known inside
      exact ⟨owner, k, cell, place, of_decide_eq_true table, type, complete.count_of_citedAt place,
        fun other i another elsewhere => complete.citedAt_unique place elsewhere⟩
    · exact (unlisted (List.mem_filter.mp named).1).elim
  named row member named := by
    have distinct := complete.listed_distinct
    refine ⟨List.count_eq_one_of_mem distinct.of_map named, fun owner k cell place => ?_⟩
    rcases List.mem_append.mp named with cited | root
    · rw [complete.citedIn_attributes] at cited
      obtain ⟨other, known, inside⟩ := List.mem_flatMap.mp cited
      obtain ⟨i, another, elsewhere, type⟩ := complete.citedAt_of_citedIn known inside
      obtain ⟨rfl, rfl, rfl⟩ := complete.citedAt_unique place elsewhere
      exact type
    · have all := complete.distinct
      rw [List.map_append, List.map_flatMap] at all
      obtain ⟨known, cited⟩ := complete.mem_added_of_citedAt place
      have twice := (List.nodup_append.mp all).2.2 row.index
        (List.mem_flatMap.mpr ⟨owner, known, cited⟩) row.index (List.mem_map_of_mem root)
      exact (twice rfl).elim

end Complete

end Pool

namespace Session

theorem run_complete {calls : List Call} (fine : (run calls).failed = false) :
    (run calls).pool.Complete (run calls).returned := by
  have journaled := run_journaled calls
  obtain ⟨rows, new, once⟩ := run_settled calls fine
  obtain rfl : (run calls).pool.added = rows := new
  refine ⟨journaled, fun row member => ?_, once⟩
  have found := (journaled.row_iff row.index row).mpr ⟨member, rfl⟩
  exact ((run_typed calls).rows row.index row found).2

/-- When no call has failed, the table of an entry record has the entries of the
attributes that list these records, each referred to once, by a cell of such an
attribute, and besides them only the attributes that are called as the table, each
once in a list of attributes and in no cell of entries. -/
theorem entriesListed_of_run {calls : List Call} (fine : (run calls).failed = false)
    (entry : Entry) : (run calls).pool.EntriesListed (run calls).returned entry :=
  (run_complete fine).entriesListed entry

end Session

/-- The pool that is read off the name of the table of line numbers. -/
def namesakeConstants : Constant.Pool :=
  Constant.namesPool ["LineNumberTableRef"] (by decide) (by decide)

/-- The sample, in which a method body has a line number, and an attribute that has the name of the
table of line numbers and reads as one. -/
def namesakes : List Call :=
  [.attributes ⟨(encodeTrees sampleTrees).toArray⟩ sampleConstants 4 0,
    .attributes ⟨⟨#[0, 1, 0, 0, 0, 4, 0, 1, 0, 2]⟩⟩ namesakeConstants 1 0]

theorem entriesListed_of_run_namesakes :
    (Session.run namesakes).failed = false ∧
      (Session.run namesakes).pool.EntriesListed (Session.run namesakes).returned .lineNumber := by
  have fine : (Session.run namesakes).failed = false := by decide +kernel
  exact ⟨fine, Session.entriesListed_of_run fine .lineNumber⟩

/-- A row in the table of line numbers need not be referred to by any cell. -/
theorem exists_not_citedAt :
    (Session.run namesakes).failed = false ∧
      ∃ row ∈ (Session.run namesakes).pool.store.rowsOf Entry.lineNumber.tableName,
        ∀ owner k cell, ¬(Session.run namesakes).pool.CitedAt owner k cell row.index := by
  have fine : (Session.run namesakes).failed = false := by decide +kernel
  have last : ((Session.run namesakes).pool.store.rowsOf Entry.lineNumber.tableName).any
      fun row => row.index = 16 := by decide +kernel
  have none : (Session.run namesakes).pool.added.all
      fun row => 16 ∉ row.cited.map Reference.index := by decide +kernel
  obtain ⟨row, member, index⟩ := List.any_eq_true.mp last
  refine ⟨fine, row, member, fun owner k cell place => ?_⟩
  rw [of_decide_eq_true index] at place
  obtain ⟨known, cited⟩ := (Session.run_complete fine).mem_added_of_citedAt place
  exact of_decide_eq_true (List.all_eq_true.mp none owner known) cited

end Attribute

end ClassFormat
