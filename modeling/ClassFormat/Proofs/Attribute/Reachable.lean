import ClassFormat.Proofs.Attribute.Stored
import ClassFormat.Proofs.Table.Keeps

/-!
# Pools that reads lead to

Reading changes a pool in three ways only: it notes an event, it opens the table
of a name, and it adds a row with a cell for each column to a table that was
opened before. What respects these steps holds between the pools before and
after every read, whatever is read and also when the read fails.
-/
namespace ClassFormat.Attribute

/-- A relation that is respected by all that reading does to a pool. -/
structure Pool.Respected (R : Pool → Pool → Prop) : Prop extends Evolution R where
  noted : ∀ (name : String) (offset count : Nat) (pool : Pool),
    R pool { pool with log := pool.log.push (.unreadBytes name offset count) }
  opened : ∀ (name : String) (pool : Pool), R pool (stateAfter (Pool.openTable name) pool)
  added : ∀ {name : String} {cells : List (Cell String)} {pool pool' : Pool},
    R (stateAfter (Pool.openTable name) pool) pool' → cells.length = (columnsOf name).length →
      R pool' (stateAfter (Pool.addRow name cells) pool')

namespace Pool.Respected

variable {R : Pool → Pool → Prop} {α : Type}

/-- What every run does to the pool of a payload. -/
abbrev OnPayloads (R : Pool → Pool → Prop) (read : PayloadReader α) : Prop :=
  Always (fun s t => R s.pool t.pool) read

/-- What every run does to the pool of a scan. -/
abbrev OnScans (R : Pool → Pool → Prop) (read : ScanReader α) : Prop :=
  Always (fun s t => R s.pool t.pool) read

theorem payloads (law : Respected R) : Evolution fun s t : Payload => R s.pool t.pool :=
  law.toEvolution.comap Payload.pool

theorem scans (law : Respected R) : Evolution fun s t : Scan => R s.pool t.pool :=
  law.toEvolution.comap Scan.pool

theorem stateAfter_onPool (act : EStateM DecodingError Pool α) (s : Payload) :
    stateAfter (PayloadReader.onPool act) s = ⟨stateAfter act s.pool, s.window⟩ := by
  obtain ⟨pool, window⟩ := s
  unfold stateAfter PayloadReader.onPool
  dsimp only
  cases act pool <;> rfl

theorem pool_stateAfter_onPayload (window : Window) (read : PayloadReader α) (pool : Pool) :
    stateAfter (Pool.onPayload window read) pool = (stateAfter read ⟨pool, window⟩).pool := by
  unfold stateAfter Pool.onPayload
  cases read ⟨pool, window⟩ <;> rfl

theorem onPayloads_onWindow (law : Evolution R) (read : WindowReader α) :
    OnPayloads R (PayloadReader.onWindow read) := by
  intro s
  obtain ⟨pool, window⟩ := s
  unfold stateAfter PayloadReader.onWindow
  dsimp only
  cases read window <;> exact law.refl pool

theorem onPayloads_readSized (law : Evolution R) (column : Column String)
    {read : PayloadReader (Nat × Value String)} (h : OnPayloads R read) :
    OnPayloads R (Attribute.readSized column read) :=
  have law := law.comap Payload.pool
  .bind law law.refl fun _ => .bind law h fun _ => .bind law law.refl fun _ => .ofExcept law _

theorem onPayloads_readPlain (law : Evolution R) {type : ColumnType}
    {read : PayloadReader (Nat × Value String)} (known : Attribute.readPlain type = some read) :
    OnPayloads R read := by
  have payloads : Evolution fun s t : Payload => R s.pool t.pool := law.comap Payload.pool
  have number {β : Type} (field : WindowReader β) {result : β → PayloadReader (Nat × Value String)}
      (rest : ∀ n, OnPayloads R (result n)) :
      OnPayloads R ((PayloadReader.onWindow field : PayloadReader β) >>= result) :=
    .bind payloads (onPayloads_onWindow law field) rest
  cases type <;> cases known
  case byte | uint16 | uint32 => exact number _ fun _ => payloads.refl
  case raw =>
    exact number Window.takeRest fun bytes =>
      .bind payloads (.ofExcept payloads (.ok bytes.length)) fun _ => .pure payloads _
  case byteArray => exact number _ fun _ => number _ fun _ => payloads.refl
  case shortArray =>
    refine number _ fun _ => .bind payloads ?_ fun _ => payloads.refl
    exact .collect payloads (onPayloads_onWindow law _) _

theorem onPayloads_readPlainCell (law : Evolution R) (column : Column String) :
    OnPayloads R (Attribute.readPlainCell column) := by
  refine readPlainCell_cases (fun read known => ?_) (law.comap Payload.pool).refl
  exact onPayloads_readSized law column (onPayloads_readPlain law known)

theorem onWindow (law : Respected R) (read : WindowReader α) :
    OnPayloads R (PayloadReader.onWindow read) :=
  onPayloads_onWindow law.toEvolution read

theorem readPlainCell (law : Respected R) (column : Column String) :
    OnPayloads R (Attribute.readPlainCell column) :=
  onPayloads_readPlainCell law.toEvolution column

/-- The row of a record is added to the table that was opened for it. -/
theorem readRecord (law : Respected R) {readCell : Column String → PayloadReader (Cell String)}
    (h : ∀ column, OnPayloads R (readCell column)) (name : String) :
    OnPayloads R (Attribute.readRecord readCell name) := by
  intro s
  obtain ⟨log, opened⟩ := exists_openTable name s.pool
  have start := law.opened name s.pool
  have first : PayloadReader.onPool (Pool.openTable name) s =
      .ok () ⟨stateAfter (Pool.openTable name) s.pool, s.window⟩ := by
    rw [stateAfter_of_ok opened]
    exact PayloadReader.onPool_eq_ok.mpr ⟨opened, rfl⟩
  have cells := Always.mapM law.payloads h (columnsOf name)
    ⟨stateAfter (Pool.openTable name) s.pool, s.window⟩
  rw [readRecord_eq, stateAfter_bind_of_ok first]
  cases run : (columnsOf name).mapM readCell
      ⟨stateAfter (Pool.openTable name) s.pool, s.window⟩ with
  | ok made t =>
      rw [stateAfter_of_ok run] at cells
      rw [stateAfter_bind_of_ok run]
      rw [stateAfter_onPool]
      exact law.trans (law.trans start cells) (law.added cells (length_of_mapM_eq_ok run))
  | error e t =>
      rw [stateAfter_of_error run] at cells
      rw [stateAfter_bind_of_error run]
      exact law.trans start cells

theorem readEntries (law : Respected R) (entry : Entry) :
    OnPayloads R (Attribute.readEntries entry) :=
  .bind law.payloads (law.onWindow _) fun count =>
    .bind law.payloads
      (.collect law.payloads (law.readRecord law.readPlainCell entry.tableName) count)
      fun _ => law.payloads.refl

section Lists

variable {readList : Nat → PayloadReader (List (Reference String))}

theorem readCell (law : Respected R) (h : ∀ count, OnPayloads R (readList count))
    (column : Column String) : OnPayloads R (Attribute.readCell readList column) := by
  refine readCell_cases (fun _ => ?_) (fun entry _ => ?_) (law.readPlainCell column)
  · refine onPayloads_readSized law.toEvolution column ?_
    exact .bind law.payloads (law.onWindow _) fun count =>
      .bind law.payloads (h count.toNat) fun _ => law.payloads.refl
  · exact onPayloads_readSized law.toEvolution column (law.readEntries entry)

theorem readPayload (law : Respected R) (constants : Constant.Pool)
    (h : ∀ count, OnPayloads R (readList count)) (header : Header) (window : Window) :
    Always R (Attribute.readPayload constants readList header window) := by
  cases named : constants.utf8 header.nameIndex.toNat with
  | error e =>
      rw [readPayload_of_nameless named]
      exact law.refl
  | ok name =>
      rw [readPayload_of_named named]
      refine .bind law.toEvolution (fun pool => ?_) fun read =>
        .bind law.toEvolution ?_ fun _ => law.refl
      · rw [pool_stateAfter_onPayload]
        exact law.readRecord (law.readCell h) name ⟨pool, window⟩
      · unfold noteUnread
        split
        · exact law.noted name _ _
        · exact law.refl

theorem readNested (law : Respected R) (constants : Constant.Pool)
    (h : ∀ count, OnPayloads R (readList count)) :
    OnPayloads R (Attribute.readNested constants readList) :=
  .bind law.payloads (law.onWindow _) fun header =>
    .bind law.payloads (law.onWindow _) fun window s => by
      rw [stateAfter_onPool]
      exact law.readPayload constants h header window s.pool

theorem nestedList (law : Respected R) (constants : Constant.Pool) (levels count : Nat) :
    OnPayloads R (Attribute.nestedList constants levels count) := by
  induction levels generalizing count with
  | zero => exact .bind law.payloads law.payloads.refl fun _ => law.payloads.refl
  | succ levels ih => exact .collect law.payloads (law.readNested constants ih) count

end Lists

theorem lift (law : Respected R) (result : Except DecodingError α) :
    OnScans R (ofExcept result) := by
  intro s
  unfold stateAfter ofExcept
  cases result <;> exact law.refl s.pool

theorem stateAfter_scan_onPool (act : EStateM DecodingError Pool α) (s : Scan) :
    stateAfter (ScanReader.onPool act) s = ⟨stateAfter act s.pool, s.offset⟩ := by
  obtain ⟨pool, offset⟩ := s
  unfold stateAfter ScanReader.onPool
  dsimp only
  cases act pool <;> rfl

theorem readAttribute (law : Respected R) (source : Source) (constants : Constant.Pool) :
    OnScans R (Attribute.readAttribute source constants) := by
  refine .bind law.scans law.scans.refl fun offset => ?_
  refine .bind law.scans (law.lift _) fun window => ?_
  refine .bind law.scans (law.lift _) fun read => ?_
  refine .bind law.scans law.scans.refl fun _ => ?_
  refine .bind law.scans law.scans.refl fun start => ?_
  refine .bind law.scans (law.lift _) fun payload => ?_
  refine .bind law.scans law.scans.refl fun _ s => ?_
  rw [stateAfter_scan_onPool]
  exact law.readPayload constants (law.nestedList constants maxNesting) read.1 payload s.pool

theorem readAttributes (law : Respected R) (source : Source) (constants : Constant.Pool)
    (count : Nat) : OnScans R (Attribute.readAttributes source constants count) :=
  .collect law.scans (law.readAttribute source constants) count

end Pool.Respected

/-- The tables have the columns of their names, and the rows are numbered. -/
structure Pool.Sound (pool : Pool) : Prop where
  shaped : ∀ table ∈ pool.store.tables, table.columns = columnsOf table.tag
  numbered : pool.store.Numbered

/-- A pool that has all of another one, and is sound if that one is. -/
structure Pool.Evolves (pool pool' : Pool) : Prop where
  grown : pool.store.Extends pool'.store
  sound : pool.Sound → pool'.Sound

theorem Pool.sound_empty : ({} : Pool).Sound :=
  ⟨fun _ h => (Array.not_mem_empty _ h).elim, Store.numbered_empty⟩

theorem Pool.Sound.ensureTable {store : Store String} {log log' : Array Event}
    (h : Pool.Sound ⟨store, log⟩) (name : String) :
    Pool.Sound ⟨store.ensureTable name (columnsOf name), log'⟩ := by
  refine ⟨Store.columns_ensureTable h.shaped name, ?_⟩
  unfold Store.ensureTable
  split
  next => exact h.numbered
  next => exact ⟨h.numbered.taken, h.numbered.bound, h.numbered.next⟩

/-- The table that is opened for a record has the columns of its name. -/
theorem Pool.Sound.exists_table {pool pool' : Pool} (h : pool.Sound) {name : String}
    (opened : Pool.openTable name pool = .ok () pool') :
    ∃ table, pool'.store.table name = .ok table ∧ table.columns = columnsOf name := by
  rw [store_of_openTable opened]
  exact Store.exists_table (Store.columns_ensureTable h.shaped name)
    (Store.containsTable_ensureTable pool.store name (columnsOf name))

theorem Pool.Sound.accepts {pool : Pool} (h : pool.Sound) {name : String}
    {cells : List (Cell String)} (opened : pool.store.containsTable name)
    (len : cells.length = (columnsOf name).length) : pool.store.Accepts ⟨name, 0, cells⟩ :=
  (Store.accepts_iff h.shaped).mpr ⟨opened, len⟩

/-- A row is added to an open table as long as there is an index for it. -/
theorem Pool.Sound.exists_addRow {pool : Pool} (h : pool.Sound) {name : String}
    {cells : List (Cell String)} (opened : pool.store.containsTable name)
    (len : cells.length = (columnsOf name).length) (room : pool.store.rowCount < 2 ^ 32) :
    ∃ pool', Pool.addRow name cells pool =
      .ok (.typed name ((pool.store.rowCount + 1) % 2 ^ 32)) pool' := by
  obtain ⟨index, store, added⟩ := h.numbered.exists_addRow (h.accepts opened len) room
  have minted := (Store.addRow_eq_ok.mp added).1
  rw [h.numbered.next room] at minted
  subst minted
  exact ⟨⟨store, _⟩, addRow_eq_ok.mpr ⟨_, added, rfl, rfl⟩⟩

theorem Pool.Sound.addRow {pool pool' : Pool} (h : pool.Sound) {name : String}
    {cells : List (Cell String)} {reference : Reference String}
    (run : Pool.addRow name cells pool = .ok reference pool') :
    pool'.Sound ∧ pool'.store.rowCount = pool.store.rowCount + 1 := by
  obtain ⟨index, added, -⟩ := addRow_eq_ok.mp run
  obtain ⟨numbered, count⟩ := h.numbered.addRow added
  refine ⟨⟨?_, numbered⟩, count⟩
  obtain ⟨-, placed⟩ := Store.addRow_eq_ok.mp added
  obtain ⟨-, position, -, -, -, same⟩ := Store.addRowAt_eq_ok.mp placed
  rw [same]
  exact Store.columns_withRow h.shaped position index _

theorem of_addRow_eq_error {name : String} {cells : List (Cell String)} {pool pool' : Pool}
    {e : DecodingError} (run : Pool.addRow name cells pool = .error e pool') :
    ∃ e', Store.addRow ⟨name, 0, cells⟩ pool.store = .error e' pool'.store := by
  obtain ⟨store, log⟩ := pool
  unfold Pool.addRow at run
  dsimp only at run
  split at run
  next => cases run
  next failed =>
    cases run
    exact ⟨_, failed⟩

/-- Events are no part of the store. -/
theorem Pool.Evolves.note (event : Event) (pool : Pool) :
    pool.Evolves { pool with log := pool.log.push event } :=
  ⟨.refl _, fun h => ⟨h.shaped, h.numbered⟩⟩

theorem Pool.respected_evolves : Pool.Respected Pool.Evolves where
  refl pool := ⟨.refl _, id⟩
  trans h k := ⟨h.grown.trans k.grown, k.sound ∘ h.sound⟩
  noted _ _ _ pool := .note _ pool
  opened name pool := by
    obtain ⟨log, opened⟩ := exists_openTable name pool
    rw [stateAfter_of_ok opened]
    exact ⟨Store.extends_ensureTable pool.store name (columnsOf name),
      fun h => Pool.Sound.ensureTable h name⟩
  added {name cells pool pool'} h len := by
    obtain ⟨log, opened⟩ := exists_openTable name pool
    rw [stateAfter_of_ok opened] at h
    have present := h.grown.tables name (Store.containsTable_ensureTable _ name (columnsOf name))
    cases run : Pool.addRow name cells pool' with
    | ok reference r =>
        obtain ⟨index, added, -⟩ := addRow_eq_ok.mp run
        rw [stateAfter_of_ok run]
        exact ⟨(Store.resolve_of_addRow added).1, fun sound => (sound.addRow run).1⟩
    | error e r =>
        obtain ⟨e', failed⟩ := of_addRow_eq_error run
        have same := Store.of_addRow_eq_error failed
        rw [stateAfter_of_error run]
        refine ⟨?_, fun sound => ⟨?_, ?_⟩⟩
        · rw [same]
          exact ⟨fun _ table => table, fun _ _ row => row⟩
        · rw [same]
          exact sound.shaped
        · exact (sound.numbered.of_addRow_eq_error (sound.accepts present len) failed).1

/-- The table of a name, as it is stored. -/
def Pool.table (name : String) : EStateM DecodingError Pool (Table String) := fun pool =>
  Reads.plain.check (pool.store.table name) pool

/-- In a sound pool, the columns of a record are those of the stored table. -/
theorem Pool.Sound.readRecord_eq {s : Payload} (sound : s.pool.Sound)
    (readCell : Column String → PayloadReader (Cell String)) (name : String) :
    readRecord readCell name s = (do
      PayloadReader.onPool (Pool.openTable name)
      let table ← PayloadReader.onPool (Pool.table name)
      let cells ← table.columns.mapM readCell
      let row ← Reads.plain.check (Row.make name 0 cells)
      PayloadReader.onPool (Pool.addRow row.table row.cells)) s := by
  obtain ⟨log, opened⟩ := exists_openTable name s.pool
  obtain ⟨table, stored, columns⟩ := sound.exists_table opened
  have first : PayloadReader.onPool (Pool.openTable name) s =
      .ok () ⟨⟨s.pool.store.ensureTable name (columnsOf name), log⟩, s.window⟩ :=
    PayloadReader.onPool_eq_ok.mpr ⟨opened, rfl⟩
  have second : PayloadReader.onPool (Pool.table name)
      ⟨⟨s.pool.store.ensureTable name (columnsOf name), log⟩, s.window⟩ =
      .ok table ⟨⟨s.pool.store.ensureTable name (columnsOf name), log⟩, s.window⟩ :=
    PayloadReader.onPool_eq_ok.mpr ⟨Reads.check_eq_ok.mpr ⟨stored, rfl⟩, rfl⟩
  change (PayloadReader.onPool (Pool.openTable name) >>= _) s = _
  rw [bind_of_ok first, bind_of_ok first, bind_of_ok second, columns]

/-- The pools that reads lead to from an empty one, failed reads included. -/
inductive Pool.Reachable : Pool → Prop
  | empty : Reachable {}
  | readAttributes {pool : Pool} (source : Source) (constants : Constant.Pool)
      (count offset : Nat) :
    Reachable pool →
      Reachable (stateAfter (Attribute.readAttributes source constants count) ⟨pool, offset⟩).pool
  | readSubAttributes {pool : Pool} (constants : Constant.Pool) (count : Nat) (window : Window) :
    Reachable pool →
      Reachable (stateAfter (Attribute.readSubAttributes constants count) ⟨pool, window⟩).pool
  | readSubRecord {pool : Pool} (constants : Constant.Pool) (name : String) (window : Window) :
    Reachable pool →
      Reachable (stateAfter (Attribute.readSubRecord constants name) ⟨pool, window⟩).pool

theorem Pool.Reachable.of_respected {R : Pool → Pool → Prop} (law : Pool.Respected R)
    {pool : Pool} (h : pool.Reachable) : R {} pool := by
  induction h with
  | empty => exact law.refl _
  | @readAttributes pool source constants count offset _ ih =>
      exact law.trans ih (law.readAttributes source constants count ⟨pool, offset⟩)
  | @readSubAttributes pool constants count window _ ih =>
      exact law.trans ih (law.nestedList constants maxNesting count ⟨pool, window⟩)
  | @readSubRecord pool constants name window _ ih =>
      have cells := law.readCell (law.nestedList constants maxNesting)
      exact law.trans ih (law.readRecord cells name ⟨pool, window⟩)

theorem Pool.Reachable.sound {pool : Pool} (h : pool.Reachable) : pool.Sound :=
  (h.of_respected respected_evolves).sound sound_empty

end ClassFormat.Attribute
