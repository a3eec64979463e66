import ClassFormat.Proofs.Attribute.Reachable
import ClassFormat.Proofs.Bytes.Twin
import ClassFormat.Proofs.Lockstep
import ClassFormat.Proofs.Table.Renumber

/-!
# Reading the same into two pools

Two runs of a reader on the same bytes, with different pools, can differ only
where they look at the pools: when a table is opened and when a row is added. If
the pools are related in such a way that these steps go alike, the whole runs
do. The bytes may stand in different windows, if these are twins.
-/
namespace ClassFormat.Attribute

/-- How pools and windows are related that the same is read with, and the
indexes of the rows in the second pool. -/
structure Comparison where
  pools : Terms Pool Pool
  windows : Window → Window → Prop
  place : Nat → Nat

namespace Comparison

/-- Related pools, with what else there is. -/
def terms {σ : Type} (c : Comparison) (pool : σ → Pool) (rest : σ → σ → Prop) : Terms σ σ where
  states s t := c.pools.states (pool s) (pool t) ∧ rest s t
  excused := c.pools.excused
  spent t := c.pools.spent (pool t)

abbrev payloads (c : Comparison) : Terms Payload Payload :=
  c.terms Payload.pool fun s t => c.windows s.window t.window

abbrev scans (c : Comparison) : Terms Scan Scan :=
  c.terms Scan.pool fun s t => s.offset = t.offset

abbrev References (c : Comparison) :
    List (Reference String) → List (Reference String) → Prop :=
  Via (List.map (Reference.renumber c.place))

/-- The number is the same, and the value has the references of its own pool. -/
abbrev renumberSized (c : Comparison) : Nat × Value String → Nat × Value String :=
  Prod.map id (Value.renumber c.place)

/-- Windows are read alike. -/
structure AlikeWindows (c : Comparison) : Prop where
  same : ∀ w, c.windows w w
  twin : ∀ {w w'}, c.windows w w' → w.Twin w'
  reads : ∀ {α : Type} {read : WindowReader α}, Window.Tame read →
    Lockstep c.payloads (Via id) (PayloadReader.onWindow read) (PayloadReader.onWindow read)
  splits : ∀ n, Lockstep c.payloads c.windows (PayloadReader.onWindow (Window.split n))
    (PayloadReader.onWindow (Window.split n))

/-- What is done to pools goes alike. -/
structure AlikePools (c : Comparison) : Prop where
  opened : ∀ name, Lockstep c.pools (Via id) (Pool.openTable name) (Pool.openTable name)
  noted : ∀ event, Lockstep c.pools (Via id) (Pool.note event) (Pool.note event)
  added : ∀ {name : String} {cells : List (Cell String)} {p q : Pool}, c.pools.states p q →
    p.store.containsTable name → cells.length = (columnsOf name).length →
      Matched c.pools (Via (Reference.renumber c.place)) (Pool.addRow name cells p)
        (Pool.addRow name (cells.map (Cell.renumber c.place)) q)

structure Lawful (c : Comparison) : Prop extends AlikeWindows c, AlikePools c

theorem tame_header : Window.Tame Header.read :=
  .fields (.bind Window.tame_short fun _ => .bind Window.tame_word fun _ => .pure _)

variable {c : Comparison} {α β : Type}

/-- In equal windows everything is read alike. -/
theorem onWindow_of_eq (V : α → α → Prop) (equal : c.windows = Eq) (same : ∀ a, V a a)
    (read : WindowReader α) :
    Lockstep c.payloads V (PayloadReader.onWindow read) (PayloadReader.onWindow read) := by
  intro s t states
  obtain ⟨pool, window⟩ := s
  obtain ⟨pool', window'⟩ := t
  obtain ⟨pools, windows⟩ := states
  rw [equal] at windows
  obtain rfl : window = window' := windows
  have again (w : Window) : c.windows w w := by rw [equal]
  unfold PayloadReader.onWindow
  dsimp only
  cases read window with
  | ok result => exact .ok (same result.1) ⟨pools, again result.2⟩
  | error e => exact .error ⟨pools, again window⟩

theorem AlikeWindows.of_eq (equal : c.windows = Eq) : c.AlikeWindows where
  same w := by rw [equal]
  twin {w w'} windows := by
    rw [equal] at windows
    obtain rfl : w = w' := windows
    exact ⟨rfl, rfl, rfl⟩
  reads _ := onWindow_of_eq (Via id) equal (fun _ => rfl) _
  splits _ := onWindow_of_eq c.windows equal (fun w => by rw [equal]) _

/-- In equal pools everything goes alike. -/
theorem onPool_of_eq (equal : c.pools.states = Eq) (act : EStateM DecodingError Pool α) :
    Lockstep c.pools (Via id) act act := by
  intro p q same
  rw [equal] at same
  obtain rfl : p = q := same
  exact .refl (fun pool => by rw [equal]) (act p)

theorem AlikePools.of_eq (equal : c.pools.states = Eq) (plain : c.place = id) :
    c.AlikePools where
  opened name := onPool_of_eq equal _
  noted event := onPool_of_eq equal _
  added {name cells p q} same _ _ := by
    rw [plain, Cell.renumber_id, List.map_id]
    exact onPool_of_eq equal (Pool.addRow name cells) p q same

theorem matched_onPool {V : α → β → Prop} {act : EStateM DecodingError Pool α}
    {act' : EStateM DecodingError Pool β} {s t : Payload} (same : c.windows s.window t.window)
    (h : Matched c.pools V (act s.pool) (act' t.pool)) :
    Matched c.payloads V (PayloadReader.onPool act s) (PayloadReader.onPool act' t) := by
  obtain ⟨pool, window⟩ := s
  obtain ⟨pool', window'⟩ := t
  unfold PayloadReader.onPool
  dsimp only at h ⊢
  generalize act pool = r at h
  generalize act' pool' = r' at h
  cases h with
  | ok value pools => exact .ok value ⟨pools, same⟩
  | error pools => exact .error ⟨pools, same⟩
  | excused known => exact .excused known
  | spent left => exact .spent left

theorem onPool {V : α → β → Prop} {act : EStateM DecodingError Pool α}
    {act' : EStateM DecodingError Pool β} (h : Lockstep c.pools V act act') :
    Lockstep c.payloads V (PayloadReader.onPool act) (PayloadReader.onPool act') :=
  fun s t same => matched_onPool same.2 (h s.pool t.pool same.1)

theorem onPayload {m : α → β} {window window' : Window} (same : c.windows window window')
    {read : PayloadReader α} {read' : PayloadReader β}
    (h : Lockstep c.payloads (Via m) read read') :
    Lockstep c.pools (fun a b => b.1 = m a.1 ∧ c.windows a.2 b.2) (Pool.onPayload window read)
      (Pool.onPayload window' read') := by
  intro p q pools
  have runs := h ⟨p, window⟩ ⟨q, window'⟩ ⟨pools, same⟩
  unfold Pool.onPayload
  generalize read ⟨p, window⟩ = r at runs
  generalize read' ⟨q, window'⟩ = r' at runs
  cases runs with
  | ok told states => exact .ok ⟨told, states.2⟩ states.1
  | error states => exact .error states.1
  | excused known => exact .excused known
  | spent left => exact .spent left

/-- The check of a cell does not look at the references in it. -/
theorem makeCell (column : Column String) (raw size : Nat) (value : Value String) :
    Lockstep c.payloads (Via (Cell.renumber c.place))
      (Reads.plain.check (Cell.make column raw size value))
      (Reads.plain.check (Cell.make column raw size (value.renumber c.place))) := by
  intro s t states
  unfold Cell.make
  rw [Value.shape_renumber]
  split
  next => exact .ok rfl states
  next => exact .error states

theorem currentOffset :
    Lockstep c.scans (Via id) ScanReader.currentOffset ScanReader.currentOffset :=
  fun _ _ states => .ok states.2.symm states

theorem advance (source : Source) (n : Nat) :
    Lockstep c.scans (Via id) (ScanReader.advance .plain source n)
      (ScanReader.advance .plain source n) :=
  fun _ _ states => .ok rfl ⟨states.1, congrArg (fun offset => saturate (offset + n)) states.2⟩

theorem onScanPool {V : α → β → Prop} {act : EStateM DecodingError Pool α}
    {act' : EStateM DecodingError Pool β} (h : Lockstep c.pools V act act') :
    Lockstep c.scans V (ScanReader.onPool act) (ScanReader.onPool act') := by
  intro s t states
  obtain ⟨pool, offset⟩ := s
  obtain ⟨pool', offset'⟩ := t
  obtain ⟨pools, same⟩ := states
  have runs := h pool pool' pools
  unfold ScanReader.onPool
  dsimp only
  generalize act pool = r at runs
  generalize act' pool' = r' at runs
  cases runs with
  | ok value pools => exact .ok value ⟨pools, same⟩
  | error pools => exact .error ⟨pools, same⟩
  | excused known => exact .excused known
  | spent left => exact .spent left

namespace Lawful

variable (law : c.Lawful)

include law

theorem position : Lockstep c.payloads (Via id) PayloadReader.position PayloadReader.position :=
  fun _ _ states => .ok (law.twin states.2).position.symm states

theorem offset : Lockstep c.payloads (Via id) (PayloadReader.ask Reads.plain.offset)
    (PayloadReader.ask Reads.plain.offset) :=
  fun _ _ states => .ok (law.twin states.2).offset.symm states

theorem readSized (column : Column String) {read read' : PayloadReader (Nat × Value String)}
    (h : Lockstep c.payloads (Via c.renumberSized) read read') :
    Lockstep c.payloads (Via (Cell.renumber c.place)) (Attribute.readSized column read)
      (Attribute.readSized column read') :=
  .bind law.position fun _ => .bind h fun _ => .bind law.position fun _ =>
    .bind (.ofExcept (.ok _)) fun _ => makeCell _ _ _ _

/-- Numbers and bytes hold no references. -/
theorem readPlain {type : ColumnType} {read : PayloadReader (Nat × Value String)}
    (known : Attribute.readPlain type = some read) :
    Lockstep c.payloads (Via c.renumberSized) read read := by
  cases type <;> cases known
  case byte => exact .bind (law.reads Window.tame_byte) fun _ => .pure rfl
  case uint16 => exact .bind (law.reads Window.tame_short) fun _ => .pure rfl
  case uint32 => exact .bind (law.reads Window.tame_word) fun _ => .pure rfl
  case raw =>
    exact .bind (law.reads Window.tame_takeRest) fun bytes =>
      .bind (.ofExcept (.ok bytes.length)) fun _ => .pure rfl
  case byteArray =>
    exact .bind (law.reads Window.tame_word) fun _ =>
      .bind (law.reads (Window.tame_take _)) fun _ => .pure rfl
  case shortArray =>
    refine .bind (law.reads Window.tame_short) fun count => ?_
    refine .bind (.collect (law.reads Window.tame_short) _) fun numbers => ?_
    rw [List.map_id]
    exact .pure rfl

theorem readPlainCell (column : Column String) :
    Lockstep c.payloads (Via (Cell.renumber c.place)) (Attribute.readPlainCell column)
      (Attribute.readPlainCell column) := by
  refine readPlainCell_cases
    (P := fun x => Lockstep c.payloads (Via (Cell.renumber c.place)) x x) (fun read known => ?_)
    (.throw _)
  exact law.readSized column (law.readPlain known)

/-- The table of a record is still open when its row is added. -/
theorem readRecord {readCell readCell' : Column String → PayloadReader (Cell String)}
    (evolves : ∀ column, Pool.Respected.OnPayloads Pool.Evolves (readCell column))
    (h : ∀ column, Lockstep c.payloads (Via (Cell.renumber c.place)) (readCell column)
      (readCell' column)) (name : String) :
    Lockstep c.payloads (Via (Reference.renumber c.place)) (Attribute.readRecord readCell name)
      (Attribute.readRecord readCell' name) := by
  rw [readRecord_eq, readRecord_eq]
  intro s t same
  refine (onPool (law.opened name) s t same).bind fun {_ _ r r'} opened _ _ same => ?_
  refine ((Lockstep.mapM h (columnsOf name)) r r' same).bind ?_
  intro cells cells' u u' read _ told same
  subst told
  have present : r.pool.store.containsTable name := by
    rw [store_of_openTable (PayloadReader.onPool_eq_ok.mp opened).1]
    exact Store.containsTable_ensureTable _ name _
  have kept := Always.mapM Pool.respected_evolves.payloads evolves (columnsOf name) r
  rw [stateAfter_of_ok read] at kept
  have len := length_of_mapM_eq_ok read
  exact matched_onPool same.2 (law.added same.1 (kept.grown.tables name present) len)

theorem readEntries (entry : Entry) :
    Lockstep c.payloads (Via c.renumberSized) (Attribute.readEntries entry)
      (Attribute.readEntries entry) := by
  have record :=
    law.readRecord Pool.respected_evolves.readPlainCell law.readPlainCell entry.tableName
  exact .bind (law.reads (Window.tame_number _)) fun count => .bind (.collect record count) fun _ => .pure rfl

theorem noteUnread (name : String) (offset count : Nat) :
    Lockstep c.pools (Via id) (Attribute.noteUnread name offset count)
      (Attribute.noteUnread name offset count) := by
  unfold Attribute.noteUnread
  split
  next => exact law.noted _
  next => exact .pure rfl

section Lists

variable {readList readList' : Nat → PayloadReader (List (Reference String))}
  (evolves : ∀ count, Pool.Respected.OnPayloads Pool.Evolves (readList count))
  (lists : ∀ count, Lockstep c.payloads c.References (readList count) (readList' count))

include lists

theorem readCell (column : Column String) :
    Lockstep c.payloads (Via (Cell.renumber c.place)) (Attribute.readCell readList column)
      (Attribute.readCell readList' column) := by
  have plain := law.readPlainCell column
  obtain ⟨table, index, name, type⟩ := column
  cases type with
  | attributes =>
      exact law.readSized _ (.bind (law.reads Window.tame_short) fun count =>
        .bind (lists count.toNat) fun _ => .pure rfl)
  | entries entry => exact law.readSized _ (law.readEntries entry)
  | _ => exact plain

include evolves

theorem readFields (name : String) :
    Lockstep c.payloads (Via (Reference.renumber c.place))
      (Attribute.readRecord (Attribute.readCell readList) name)
      (Attribute.readRecord (Attribute.readCell readList') name) :=
  law.readRecord (Pool.respected_evolves.readCell evolves) (law.readCell lists) name

theorem readPayload (constants : Constant.Pool) (header : Header) {window window' : Window}
    (same : c.windows window window') :
    Lockstep c.pools (Via (Reference.renumber c.place))
      (Attribute.readPayload constants readList header window)
      (Attribute.readPayload constants readList' header window') := by
  cases named : constants.utf8 header.nameIndex.toNat with
  | error e =>
      rw [readPayload_of_nameless named, readPayload_of_nameless named]
      exact .throw _
  | ok name =>
      rw [readPayload_of_named named, readPayload_of_named named]
      refine .bind_of (onPayload same (law.readFields evolves lists name)) fun read read' alike => ?_
      obtain ⟨told, rest⟩ := alike
      have twin := law.twin rest
      rw [told, twin.remaining, twin.offset]
      exact .bind (law.noteUnread _ _ _) fun _ => .pure rfl

theorem readNested (constants : Constant.Pool) :
    Lockstep c.payloads (Via (Reference.renumber c.place))
      (Attribute.readNested constants readList) (Attribute.readNested constants readList') :=
  .bind (law.reads tame_header) fun header => .bind_of (law.splits _) fun _ _ same =>
    onPool (law.readPayload evolves lists constants header same)

end Lists

theorem nestedList (constants : Constant.Pool) (levels count : Nat) :
    Lockstep c.payloads c.References (Attribute.nestedList constants levels count)
      (Attribute.nestedList constants levels count) := by
  induction levels generalizing count with
  | zero => exact .bind law.offset fun _ => .throw _
  | succ levels ih =>
      have evolves := Pool.respected_evolves.nestedList constants levels
      exact .collect (law.readNested evolves ih constants) count

theorem readAttributes (source : Source) (constants : Constant.Pool) (count : Nat) :
    Lockstep c.scans c.References (Attribute.readAttributes source constants count)
      (Attribute.readAttributes source constants count) := by
  refine .collect ?_ count
  refine .bind currentOffset fun offset => .bind (.ofExcept _) fun window => ?_
  refine .bind (.ofExcept _) fun read => .bind (advance source _) fun _ => ?_
  refine .bind currentOffset fun start => .bind (.ofExcept _) fun payload => ?_
  refine .bind (advance source _) fun _ => onScanPool ?_
  exact law.readPayload (Pool.respected_evolves.nestedList constants maxNesting)
    (law.nestedList constants maxNesting) constants read.1 (law.same payload)

end Lawful

end Comparison

end ClassFormat.Attribute
