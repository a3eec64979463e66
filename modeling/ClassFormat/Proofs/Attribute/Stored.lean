import ClassFormat.Proofs.Attribute.Codec
import ClassFormat.Proofs.Table.Store

/-!
# Planted trees are stored

After a tree was planted its reference leads to it, through the rows that were
made for it, and so it does in every store that grows out of this one.
-/
namespace ClassFormat.Attribute

section Growth

variable {store store' : Store String}

theorem Record.Stored.mono (grown : store.Extends store') {entry : Entry} {record : Record}
    {reference : Reference String} (h : record.Stored store entry reference) :
    record.Stored store' entry reference := by
  obtain ⟨table, row, found, values⟩ := h
  exact ⟨table, row, grown.resolve found, values⟩

theorem Record.AllStored.mono (grown : store.Extends store') {entry : Entry}
    {records : List Record} {references : List (Reference String)}
    (h : AllStored store entry records references) : AllStored store' entry records references := by
  induction records generalizing references with
  | nil => cases references <;> exact h
  | cons record records ih =>
      cases references with
      | nil => exact h
      | cons reference references => exact ⟨h.1.mono grown, ih h.2⟩

mutual

theorem Field.Stored.mono (grown : store.Extends store') : ∀ {field : Field} {cell : Cell String},
    field.Stored store cell → field.Stored store' cell
  | .plain _, _, h => h
  | .entries _ _, _, ⟨references, value, h⟩ => ⟨references, value, h.mono grown⟩
  | .attributes _, _, ⟨references, value, h⟩ => ⟨references, value, TreesStored.mono grown h⟩

theorem FieldsStored.mono (grown : store.Extends store') :
    ∀ {fields : List Field} {cells : List (Cell String)},
      FieldsStored store fields cells → FieldsStored store' fields cells
  | [], [], _ => trivial
  | _ :: _, _ :: _, ⟨head, tail⟩ => ⟨Field.Stored.mono grown head, FieldsStored.mono grown tail⟩

theorem Tree.Stored.mono (grown : store.Extends store') :
    ∀ {tree : Tree} {reference : Reference String},
      tree.Stored store reference → tree.Stored store' reference
  | .node .., _, ⟨table, row, found, h⟩ =>
      ⟨table, row, grown.resolve found, FieldsStored.mono grown h⟩

theorem TreesStored.mono (grown : store.Extends store') :
    ∀ {trees : List Tree} {references : List (Reference String)},
      TreesStored store trees references → TreesStored store' trees references
  | [], [], _ => trivial
  | _ :: _, _ :: _, ⟨head, tail⟩ => ⟨Tree.Stored.mono grown head, TreesStored.mono grown tail⟩

end

end Growth

mutual

/-- A field without what rows do not keep: the slots of names, and the bytes
left unread. -/
def Field.bare : Field → Field
  | .plain field => .plain field
  | .entries entry records => .entries entry records
  | .attributes trees => .attributes (bareTrees trees)

def bareFields : List Field → List Field
  | [] => []
  | field :: rest => field.bare :: bareFields rest

def Tree.bare : Tree → Tree
  | .node _ name fields _ => .node 0 name (bareFields fields) []

def bareTrees : List Tree → List Tree
  | [] => []
  | tree :: rest => tree.bare :: bareTrees rest

end

section Unique

variable {store : Store String}

theorem Plain.eq_of_value {field other : Plain} (types : field.type = other.type)
    (values : field.value = other.value) : field = other := by
  cases field <;> cases other <;> simp_all [type, value]

theorem Record.eq_of_values {record other : Record}
    (types : record.map Plain.type = other.map Plain.type)
    (values : record.map Plain.value = other.map Plain.value) : record = other := by
  induction record generalizing other with
  | nil =>
      cases other with
      | nil => rfl
      | cons => cases types
  | cons field record ih =>
      cases other with
      | nil => cases types
      | cons field' other =>
          obtain ⟨type, types⟩ := List.cons.inj types
          obtain ⟨value, values⟩ := List.cons.inj values
          rw [Plain.eq_of_value type value, ih types values]

theorem Record.AllStored.unique {entry : Entry} {records others : List Record}
    {references : List (Reference String)} (fits : ∀ record ∈ records, record.Fits (fieldsOf entry))
    (fits' : ∀ record ∈ others, record.Fits (fieldsOf entry))
    (h : AllStored store entry records references) (h' : AllStored store entry others references) :
    records = others := by
  induction records generalizing others references with
  | nil =>
      cases references with
      | cons => exact h.elim
      | nil =>
          cases others with
          | nil => rfl
          | cons => exact h'.elim
  | cons record records ih =>
      cases references with
      | nil => exact h.elim
      | cons reference references =>
          cases others with
          | nil => exact h'.elim
          | cons other others =>
              obtain ⟨⟨_, row, found, values⟩, h⟩ := h
              obtain ⟨⟨_, row', found', values'⟩, h'⟩ := h'
              rw [found] at found'
              cases found'
              have types := (fits _ List.mem_cons_self).1.trans (fits' _ List.mem_cons_self).1.symm
              rw [Record.eq_of_values types (values.symm.trans values'),
                ih (fun r m => fits r (List.mem_cons_of_mem _ m))
                  (fun r m => fits' r (List.mem_cons_of_mem _ m)) h h']

variable {named named' : Nat → String → Prop}

mutual

theorem Field.Stored.unique : ∀ {field other : Field} {cell : Cell String},
    field.type = other.type → field.Fits named → other.Fits named' → field.Stored store cell →
      other.Stored store cell → field.bare = other.bare
  | .plain _, .plain _, _, types, _, _, h, h' =>
      congrArg Field.plain (Plain.eq_of_value types (h.symm.trans h'))
  | .entries entry _, .entries _ _, _, types, fits, fits', ⟨_, value, h⟩, ⟨_, value', h'⟩ => by
      cases types
      rw [value] at value'
      cases value'
      exact congrArg (Field.entries entry) (Record.AllStored.unique fits.2 fits'.2 h h')
  | .attributes _, .attributes _, _, _, fits, fits', ⟨_, value, h⟩, ⟨_, value', h'⟩ => by
      rw [value] at value'
      cases value'
      exact congrArg Field.attributes (TreesStored.unique fits.2 fits'.2 h h')
  | .plain field, .entries entry _, _, types, _, _, _, _ => (field.type_ne.2 entry types).elim
  | .plain field, .attributes _, _, types, _, _, _, _ => (field.type_ne.1 types).elim
  | .entries entry _, .plain field, _, types, _, _, _, _ => (field.type_ne.2 entry types.symm).elim
  | .attributes _, .plain field, _, types, _, _, _, _ => (field.type_ne.1 types.symm).elim
  | .entries _ _, .attributes _, _, types, _, _, _, _ => nomatch types
  | .attributes _, .entries _ _, _, types, _, _, _, _ => nomatch types

theorem FieldsStored.unique : ∀ {fields others : List Field} {types : List ColumnType}
    {cells : List (Cell String)}, FieldsFit named fields types → FieldsFit named' others types →
      FieldsStored store fields cells → FieldsStored store others cells →
        bareFields fields = bareFields others
  | [], [], _, _, _, _, _, _ => rfl
  | field :: _, other :: _, _ :: _, _ :: _, ⟨type, fit, fits⟩, ⟨type', fit', fits'⟩, ⟨h, hs⟩,
      ⟨h', hs'⟩ => by
      rw [bareFields, bareFields,
        Field.Stored.unique (type.trans type'.symm) fit fit' h h',
        FieldsStored.unique fits fits' hs hs']
  | [], _ :: _, [], _, _, fits', _, _ => fits'.elim
  | [], _ :: _, _ :: _, _, fits, _, _, _ => fits.elim
  | _ :: _, [], [], _, fits, _, _, _ => fits.elim
  | _ :: _, [], _ :: _, _, _, fits', _, _ => fits'.elim
  | _ :: _, _ :: _, [], _, fits, _, _, _ => fits.elim
  | _ :: _, _ :: _, _ :: _, [], _, _, h, _ => h.elim

theorem Tree.Stored.unique : ∀ {tree other : Tree} {reference : Reference String},
    tree.Fits named → other.Fits named' → tree.Stored store reference →
      other.Stored store reference → tree.bare = other.bare
  | .node .., .node .., _, fits, fits', ⟨table, row, found, h⟩, ⟨table', row', found', h'⟩ => by
      rw [table] at table'
      cases table'
      rw [found] at found'
      cases found'
      rw [Tree.bare, Tree.bare, FieldsStored.unique fits.2.1 fits'.2.1 h h']

/-- References lead to at most one list of trees, but for what rows do not
keep. -/
theorem TreesStored.unique : ∀ {trees others : List Tree} {references : List (Reference String)},
    TreesFit named trees → TreesFit named' others → TreesStored store trees references →
      TreesStored store others references → bareTrees trees = bareTrees others
  | [], [], _, _, _, _, _ => rfl
  | _ :: _, _ :: _, _ :: _, ⟨fit, fits⟩, ⟨fit', fits'⟩, ⟨h, hs⟩, ⟨h', hs'⟩ => by
      rw [bareTrees, bareTrees, Tree.Stored.unique fit fit' h h',
        TreesStored.unique fits fits' hs hs']
  | [], _ :: _, [], _, _, _, h' => h'.elim
  | [], _ :: _, _ :: _, _, _, h, _ => h.elim
  | _ :: _, [], [], _, _, h, _ => h.elim
  | _ :: _, [], _ :: _, _, _, _, h' => h'.elim
  | _ :: _, _ :: _, [], _, _, h, _ => h.elim

end

end Unique

section Rows

variable {name : String} {pool pool' : Pool}

/-- The table of a name can always be opened. -/
theorem exists_openTable (name : String) (pool : Pool) :
    ∃ log, Pool.openTable name pool =
      .ok () ⟨pool.store.ensureTable name (columnsOf name), log⟩ := by
  by_cases known : pool.store.containsTable name
  · refine ⟨pool.log, ?_⟩
    rw [Pool.openTable_of_known known, Store.ensureTable, if_pos known]
  · exact ⟨_, Pool.openTable_of_new known⟩

theorem store_of_openTable (h : Pool.openTable name pool = .ok () pool') :
    pool'.store = pool.store.ensureTable name (columnsOf name) := by
  obtain ⟨log, opened⟩ := exists_openTable name pool
  rw [opened] at h
  cases h
  rfl

theorem addRow_eq_ok {cells : List (Cell String)} {reference : Reference String} :
    Pool.addRow name cells pool = .ok reference pool' ↔
      ∃ index, Store.addRow ⟨name, 0, cells⟩ pool.store = .ok index pool'.store ∧
        reference = .typed name index ∧
        pool'.log = pool.log.push (.attributeRow ⟨name, index, cells⟩) := by
  obtain ⟨store, log⟩ := pool
  obtain ⟨store', log'⟩ := pool'
  unfold Pool.addRow
  dsimp only
  cases run : Store.addRow ⟨name, 0, cells⟩ store with
  | error e r =>
      constructor
      · intro h
        cases h
      · intro h
        obtain ⟨_, impossible, -⟩ := h
        cases impossible
  | ok index r =>
      constructor
      · intro h
        cases h
        exact ⟨index, rfl, rfl, rfl⟩
      · intro h
        obtain ⟨_, same, rfl, rfl⟩ := h
        cases same
        rfl

/-- A row is registered behind all that its cells needed, and then its reference
leads to it. -/
theorem plantRow_stored {cells : Planter (List (Cell String))} {reference : Reference String}
    (h : plantRow name cells pool = .ok reference pool') :
    ∃ r made u index, pool.store.Extends r.store ∧ cells r = .ok made u ∧
      u.store.Extends pool'.store ∧ reference.table = some name ∧
      pool'.store.resolve reference = .ok ⟨name, index, made⟩ := by
  obtain ⟨_, r, opened, h⟩ := bind_eq_ok.mp h
  obtain ⟨made, u, run, registered⟩ := bind_eq_ok.mp h
  obtain ⟨index, added, rfl, -⟩ := addRow_eq_ok.mp registered
  obtain ⟨grown, found⟩ := Store.resolve_of_addRow added
  refine ⟨r, made, u, index, ?_, run, grown, rfl, found⟩
  rw [store_of_openTable opened]
  exact Store.extends_ensureTable pool.store name (columnsOf name)

end Rows

section Plant

variable {pool pool' : Pool}

theorem map_value_cells {record : Record} {columns : List (Column String)}
    (len : record.length = columns.length) :
    (record.cells columns).map Cell.value = record.map Plain.value := by
  induction record generalizing columns with
  | nil => rfl
  | cons field record ih =>
      cases columns with
      | nil => cases len
      | cons column columns =>
          exact congrArg (field.value :: ·) (ih (Nat.succ.inj len))

theorem Record.Fits.length {record : Record} {entry : Entry} (h : record.Fits (fieldsOf entry)) :
    record.length = (columnsOf entry.tableName).length := by
  have types := congrArg List.length (h.1.trans (map_type_columnsOf_tableName entry).symm)
  rwa [List.length_map, List.length_map] at types

theorem Record.plant_stored {entry : Entry} {record : Record} (fits : record.Fits (fieldsOf entry))
    {reference : Reference String} (h : record.plant entry pool = .ok reference pool') :
    pool.store.Extends pool'.store ∧ record.Stored pool'.store entry reference := by
  obtain ⟨r, made, u, index, opened, run, added, table, found⟩ := plantRow_stored h
  obtain ⟨rfl, rfl⟩ := pure_eq_ok.mp run
  exact ⟨opened.trans added, table, _, found, map_value_cells fits.length⟩

theorem Record.plantAll_stored {entry : Entry} {records : List Record}
    (fits : ∀ record ∈ records, record.Fits (fieldsOf entry)) {references : List (Reference String)}
    (h : records.mapM (Record.plant entry) pool = .ok references pool') :
    pool.store.Extends pool'.store ∧ AllStored pool'.store entry records references := by
  induction records generalizing pool references with
  | nil =>
      obtain ⟨rfl, rfl⟩ := mapM_nil_eq_ok.mp h
      exact ⟨.refl _, trivial⟩
  | cons record records ih =>
      obtain ⟨reference, r, rest, first, others, rfl⟩ := mapM_cons_eq_ok.mp h
      obtain ⟨grown, stored⟩ := record.plant_stored (fits _ List.mem_cons_self) first
      obtain ⟨grown', storedAll⟩ := ih (fun other h => fits other (List.mem_cons_of_mem _ h)) others
      exact ⟨grown.trans grown', stored.mono grown', storedAll⟩

theorem store_of_noteUnread {name : String} {offset count : Nat} {u : Unit}
    (h : noteUnread name offset count pool = .ok u pool') : pool'.store = pool.store := by
  unfold noteUnread at h
  split at h
  · cases h
    rfl
  · cases h
    rfl

variable {named : Nat → String → Prop}

mutual

theorem Field.plant_stored : ∀ {field : Field} {offset : Nat} {column : Column String}
    {cell : Cell String} {pool pool' : Pool}, field.Fits named →
    field.plant offset column pool = .ok cell pool' →
    pool.store.Extends pool'.store ∧ field.Stored pool'.store cell
  | .plain field, _, _, _, _, _, _, h => by
      obtain ⟨rfl, rfl⟩ := pure_eq_ok.mp h
      exact ⟨.refl _, rfl⟩
  | .entries entry records, _, _, _, _, _, fits, h => by
      obtain ⟨references, r, planted, done⟩ := bind_eq_ok.mp h
      obtain ⟨rfl, rfl⟩ := pure_eq_ok.mp done
      obtain ⟨grown, stored⟩ := Record.plantAll_stored fits.2 planted
      exact ⟨grown, references, rfl, stored⟩
  | .attributes trees, _, _, _, _, _, fits, h => by
      obtain ⟨references, r, planted, done⟩ := bind_eq_ok.mp h
      obtain ⟨rfl, rfl⟩ := pure_eq_ok.mp done
      obtain ⟨grown, stored⟩ := plantTrees_stored fits.2 planted
      exact ⟨grown, references, rfl, stored⟩

theorem plantFields_stored : ∀ {fields : List Field} {offset : Nat}
    {columns : List (Column String)} {cells : List (Cell String)} {pool pool' : Pool},
    FieldsFit named fields (columns.map Column.type) →
    plantFields offset fields columns pool = .ok cells pool' →
    pool.store.Extends pool'.store ∧ FieldsStored pool'.store fields cells
  | [], _, [], _, _, _, _, h => by
      obtain ⟨rfl, rfl⟩ := pure_eq_ok.mp h
      exact ⟨.refl _, trivial⟩
  | [], _, _ :: _, _, _, _, fits, _ => fits.elim
  | _ :: _, _, [], _, _, _, fits, _ => fits.elim
  | field :: fields, _, column :: columns, _, _, _, ⟨_, fit, fits⟩, h => by
      obtain ⟨cell, r, first, h⟩ := bind_eq_ok.mp h
      obtain ⟨cells, u, others, done⟩ := bind_eq_ok.mp h
      obtain ⟨rfl, rfl⟩ := pure_eq_ok.mp done
      obtain ⟨grown, stored⟩ := Field.plant_stored fit first
      obtain ⟨grown', storedAll⟩ := plantFields_stored fits others
      exact ⟨grown.trans grown', stored.mono grown', storedAll⟩

theorem Tree.plant_stored : ∀ {tree : Tree} {offset : Nat} {reference : Reference String}
    {pool pool' : Pool}, tree.Fits named → tree.plant offset pool = .ok reference pool' →
    pool.store.Extends pool'.store ∧ tree.Stored pool'.store reference
  | .node _ name fields _, _, _, _, _, fits, h => by
      obtain ⟨reference, u, planted, behind⟩ := bind_eq_ok.mp h
      obtain ⟨_, v, noted, done⟩ := bind_eq_ok.mp behind
      obtain ⟨rfl, rfl⟩ := pure_eq_ok.mp done
      rw [store_of_noteUnread noted]
      obtain ⟨r, made, w, index, opened, run, added, table, found⟩ := plantRow_stored planted
      obtain ⟨grown, stored⟩ := plantFields_stored (columnsOf_structure name ▸ fits.2.1) run
      exact ⟨(opened.trans grown).trans added, table, _, found, stored.mono added⟩

theorem plantTrees_stored : ∀ {trees : List Tree} {offset : Nat}
    {references : List (Reference String)} {pool pool' : Pool}, TreesFit named trees →
    plantTrees offset trees pool = .ok references pool' →
    pool.store.Extends pool'.store ∧ TreesStored pool'.store trees references
  | [], _, _, _, _, _, h => by
      obtain ⟨rfl, rfl⟩ := pure_eq_ok.mp h
      exact ⟨.refl _, trivial⟩
  | tree :: trees, _, _, _, _, ⟨fit, fits⟩, h => by
      obtain ⟨reference, r, first, h⟩ := bind_eq_ok.mp h
      obtain ⟨rest, u, others, done⟩ := bind_eq_ok.mp h
      obtain ⟨rfl, rfl⟩ := pure_eq_ok.mp done
      obtain ⟨grown, stored⟩ := Tree.plant_stored fit first
      obtain ⟨grown', storedAll⟩ := plantTrees_stored fits others
      exact ⟨grown.trans grown', stored.mono grown', storedAll⟩

end

end Plant

end ClassFormat.Attribute
