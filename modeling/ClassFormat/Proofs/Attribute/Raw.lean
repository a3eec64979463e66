import ClassFormat.Proofs.Attribute.Progress
import ClassFormat.Proofs.Attribute.Replanting
import ClassFormat.Proofs.Attribute.Unambiguous
import ClassFormat.Proofs.Table.Beside

/-!
# Attributes that are kept as they are

An attribute of an unknown name, or of a kind whose structure is not decoded, is
one cell with all bytes of its payload. Every payload will do, and no other one
is read in a different way for it: other bytes in its place leave the same
tables and rows, that one cell apart.
-/
namespace ClassFormat.Attribute

open BigEndian

/-- Whether the payloads of attributes of the name are kept as they are: if a
kind has the name, its only column is one for all bytes. -/
def KeptRaw (name : String) : Prop :=
  ∀ kind, Kind.ofName? name = some kind → kind.layout.types = [.raw]

theorem keptRaw_iff {name : String} : KeptRaw name ↔ structureOf name = [.raw] := by
  rw [structureOf_eq]
  unfold KeptRaw typesOf layoutOf
  cases Kind.ofName? name with
  | none => simp [rawLayout, Layout.types]
  | some kind => simp

instance (name : String) : Decidable (KeptRaw name) := decidable_of_iff _ keptRaw_iff.symm

/-- The row is one of the name, with all of these bytes in its only cell. -/
structure KeepsBytes (row : Row String) (name : String) (bytes : List UInt8) : Prop where
  table : row.table = name
  cells : ∃ column, columnsOf name = [column] ∧ column.type = .raw ∧
    row.cells = [⟨column, bytes.length, bytes.length, .bytes bytes⟩]

/-- The tree of an attribute that is kept as it is. -/
def rawTree (index : UInt16) (name : String) (bytes : List UInt8) : Tree :=
  .node index name [.plain (.raw bytes)] []

section RawTrees

variable {index : UInt16} {name : String} {bytes : List UInt8} {named : Nat → String → Prop}

theorem payload_rawTree : (rawTree index name bytes).payload = bytes := by
  simp [rawTree, Tree.payload, encodeFields, Field.encode, Plain.encode]

theorem rawTree_fits (kept : KeptRaw name) (known : named index.toNat name)
    (bound : bytes.length < 2 ^ 32) : (rawTree index name bytes).Fits named := by
  have types := keptRaw_iff.mp kept
  simpa [rawTree, Tree.Fits, FieldsFit, Field.Fits, Field.type, Plain.type, Plain.Fits, types,
    known, encodeFields, Field.encode, Plain.encode] using bound

/-- A tree of such a name is nothing but its bytes. -/
theorem eq_rawTree {fields : List Field} {unread : List UInt8} (kept : KeptRaw name)
    (fits : (Tree.node index name fields unread).Fits named) :
    Tree.node index name fields unread = rawTree index name (encodeFields fields ++ unread) := by
  obtain ⟨-, shape, -, ending⟩ := fits
  rw [keptRaw_iff.mp kept] at shape ending
  cases ending (List.mem_singleton_self _)
  cases fields with
  | nil => exact shape.elim
  | cons field rest =>
      obtain ⟨type, -, shape⟩ := shape
      cases rest with
      | cons => exact shape.elim
      | nil =>
          cases field with
          | entries => cases type
          | attributes => cases type
          | plain field =>
              cases field with
              | raw bytes => simp [rawTree, encodeFields, Field.encode, Plain.encode]
              | _ => cases type

theorem exists_column (kept : KeptRaw name) :
    ∃ column, columnsOf name = [column] ∧ column.type = .raw := by
  have types := columnsOf_structure name
  rw [keptRaw_iff.mp kept, List.map_eq_singleton_iff] at types
  exact types

theorem plant_rawTree {column : Column String} (only : columnsOf name = [column]) (offset : Nat) :
    (rawTree index name bytes).plant offset = (do
      Pool.openTable name
      Pool.addRow name [⟨column, bytes.length, bytes.length, .bytes bytes⟩]) := by
  simp [rawTree, Tree.plant, plantRow, plantFields, Field.plant, Plain.cell, Plain.number,
    Plain.encode, Plain.value, noteUnread, only]

/-- Planted, it is a row that keeps the bytes. -/
theorem keepsBytes_of_plant (kept : KeptRaw name) {offset : Nat} {pool pool' : Pool}
    {reference : Reference String}
    (planted : (rawTree index name bytes).plant offset pool = .ok reference pool') :
    reference.table = some name ∧
      ∃ row, pool'.store.resolve reference = .ok row ∧ KeepsBytes row name bytes := by
  obtain ⟨column, only, raw⟩ := exists_column kept
  rw [plant_rawTree only] at planted
  obtain ⟨_, r, opened, added⟩ := bind_eq_ok.mp planted
  obtain ⟨i, stored, rfl, -⟩ := addRow_eq_ok.mp added
  obtain ⟨-, found⟩ := Store.resolve_of_addRow stored
  exact ⟨rfl, _, found, rfl, column, only, raw, rfl⟩

end RawTrees

/-- A tree that was planted has found an index for its row. -/
theorem rowCount_lt_of_plant {named : Nat → String → Prop} {tree : Tree} (fits : tree.Fits named)
    {offset : Nat} {pool pool' : Pool} (sound : pool.Sound) {reference : Reference String}
    (planted : tree.plant offset pool = .ok reference pool') : pool.store.rowCount < 2 ^ 32 := by
  obtain ⟨evolves, count⟩ := (Tree.plant_adds offset fits).effect sound planted
  have bound := (evolves.sound sound).numbered.bound
  have own : 0 < tree.rows := by
    cases tree
    exact Nat.succ_pos _
  omega

section Reads

variable {constants : Constant.Pool} {header : Header} {name : String} {bytes : List UInt8}

/-- What is left of an attribute that is kept as it is: a row with its bytes, in
the table of its name. -/
structure LeavesRow (name : String) (bytes : List UInt8) (reference : Reference String)
    (pool : Pool) : Prop where
  table : reference.table = some name
  row : ∃ row, pool.store.resolve reference = .ok row ∧ KeepsBytes row name bytes

theorem encode_rawTree (len : bytes.length = header.length.toNat) :
    (rawTree header.nameIndex name bytes).encode = header.encode ++ bytes := by
  rw [Tree.encode, payload_rawTree, len]
  rfl

variable (kept : KeptRaw name) (known : constants.utf8 header.nameIndex.toNat = .ok name)
  (len : bytes.length = header.length.toNat)

include kept known len

theorem rawTree_fits_header : (rawTree header.nameIndex name bytes).Fits (Named constants) :=
  rawTree_fits kept known (len ▸ header.length.toNat_lt)

theorem exists_plant_rawTree {pool : Pool} (sound : pool.Sound)
    (room : pool.store.rowCount < 2 ^ 32) (offset : Nat) : ∃ reference pool',
      (rawTree header.nameIndex name bytes).plant offset pool = .ok reference pool' ∧
        LeavesRow name bytes reference pool' := by
  have adds := Tree.plant_adds offset (rawTree_fits_header kept known len)
  obtain ⟨reference, pool', planted⟩ := adds.exists_ok sound room
  obtain ⟨table, row⟩ := keepsBytes_of_plant kept planted
  exact ⟨reference, pool', planted, table, row⟩

/-- Inside a payload, at whatever level, the attribute is read behind its header
up to its length. -/
theorem readNested_raw (levels : Nat) {s : Payload} (sound : s.pool.Sound) {behind : List UInt8}
    (front : s.window.rest = header.encode ++ bytes ++ behind) :
    s.pool.store.rowCount < 2 ^ 32 ↔
      ∃ reference t, readNested constants (nestedList constants levels) s = .ok reference t ∧
        s.window.Consumes (header.encode ++ bytes) t.window ∧
        LeavesRow name bytes reference t.pool := by
  have law := nestedList_readsTrees constants levels
  constructor
  · intro room
    obtain ⟨reference, pool', planted, leaves⟩ :=
      exists_plant_rawTree kept known len sound room (saturate (s.window.offset + Header.size))
    obtain ⟨window, consumes, -⟩ := Window.exists_consumes front
    refine ⟨reference, ⟨pool', window⟩, ?_, consumes, leaves⟩
    refine (readNested_eq_ok law).mpr
      ⟨_, rawTree_fits_header kept known len, Nat.zero_le _, ?_, planted⟩
    rwa [encode_rawTree len]
  · intro h
    obtain ⟨reference, t, run, -⟩ := h
    obtain ⟨tree, fits, -, yields⟩ := (readNested_eq_ok law).mp run
    exact rowCount_lt_of_plant fits sound yields.planted

/-- So it is at an offset of the source. -/
theorem readAttribute_raw {source : Source} (small : source.size < 2 ^ 32) {s : Scan}
    (sound : s.pool.Sound) (front : source.Holds s.offset (header.encode ++ bytes)) :
    s.pool.store.rowCount < 2 ^ 32 ↔
      ∃ reference t, readAttribute source constants s = .ok reference t ∧
        t.offset = s.offset + header.span ∧ LeavesRow name bytes reference t.pool := by
  constructor
  · intro room
    obtain ⟨reference, pool', planted, leaves⟩ :=
      exists_plant_rawTree kept known len sound room (saturate (s.offset + Header.size))
    refine ⟨reference, ⟨pool', s.offset + header.span⟩, ?_, rfl, leaves⟩
    refine (readAttribute_eq_ok small).mpr
      ⟨_, rawTree_fits_header kept known len, Nat.zero_le _, ?_, ?_, planted⟩
    · rwa [encode_rawTree len]
    · rw [length_encode, payload_rawTree, len, Header.span]
  · intro h
    obtain ⟨reference, t, run, -⟩ := h
    obtain ⟨tree, fits, -, -, -, planted⟩ := (readAttribute_eq_ok small).mp run
    exact rowCount_lt_of_plant fits sound planted

end Reads

/-- A payload that is kept as it is. -/
structure RawPayload where
  name : String
  offset : Nat
  bytes : List UInt8
deriving Repr, DecidableEq

mutual

/-- The payloads in a field that starts at an offset, from front to back. -/
def Field.raws (offset : Nat) : Field → List RawPayload
  | .plain _ | .entries _ _ => []
  | .attributes trees => treesRaws (offset + 2) trees

def fieldsRaws (offset : Nat) : List Field → List RawPayload
  | [] => []
  | field :: rest => field.raws offset ++ fieldsRaws (offset + field.encode.length) rest

/-- The payload itself, or those inside it. -/
def Tree.raws (offset : Nat) : Tree → List RawPayload
  | .node _ name fields unread =>
    if KeptRaw name then [⟨name, offset, encodeFields fields ++ unread⟩]
    else fieldsRaws offset fields

def treesRaws (offset : Nat) : List Tree → List RawPayload
  | [] => []
  | tree :: rest =>
    tree.raws (offset + Header.size) ++ treesRaws (offset + tree.encode.length) rest

end

/-- The second bytes are the first ones with others in the place of a raw
payload. -/
def Patched (raw : RawPayload) (bytes : List UInt8) (offset : Nat) (first second : List UInt8) :
    Prop :=
  ∃ front back, first = front ++ raw.bytes ++ back ∧ second = front ++ bytes ++ back ∧
    raw.offset = offset + front.length

namespace Patched

variable {raw : RawPayload} {bytes first second : List UInt8} {offset : Nat}

theorem length_eq (h : Patched raw bytes offset first second)
    (len : bytes.length = raw.bytes.length) : second.length = first.length := by
  obtain ⟨front, back, rfl, rfl, -⟩ := h
  simp [len]

theorem before (h : Patched raw bytes offset first second) (more : List UInt8) :
    Patched raw bytes offset (first ++ more) (second ++ more) := by
  obtain ⟨front, back, rfl, rfl, place⟩ := h
  exact ⟨front, back ++ more, by simp, by simp, place⟩

theorem behind (start : List UInt8) (h : Patched raw bytes (offset + start.length) first second) :
    Patched raw bytes offset (start ++ first) (start ++ second) := by
  obtain ⟨front, back, rfl, rfl, place⟩ := h
  exact ⟨start ++ front, back, by simp, by simp, by simp [place, Nat.add_assoc]⟩

/-- The header of an attribute is the same, as its length is. -/
theorem encode {tree tree' : Tree} (index : tree'.nameIndex = tree.nameIndex)
    (len : bytes.length = raw.bytes.length)
    (h : Patched raw bytes (offset + Header.size) tree.payload tree'.payload) :
    Patched raw bytes offset tree.encode tree'.encode := by
  rw [Tree.encode, Tree.encode, index, h.length_eq len]
  refine behind _ ?_
  rwa [length_header]

end Patched

/-- The second store has other bytes in a row of a raw payload. -/
def Exchanged (raw : RawPayload) (bytes : List UInt8) (store other : Store String) : Prop :=
  ∃ row row', KeepsBytes row raw.name raw.bytes ∧ KeepsBytes row' raw.name bytes ∧
    store.Beside row row' other

section Exchange

open Planter

variable {raw : RawPayload} {bytes : List UInt8}

theorem fair_exchanged (raw : RawPayload) (bytes : List UInt8) : Fair (Exchanged raw bytes) where
  opened name h := by
    obtain ⟨row, row', keeps, keeps', beside⟩ := h
    exact ⟨row, row', keeps, keeps', beside.ensureTable name (columnsOf name)⟩
  added h added := by
    obtain ⟨row, row', keeps, keeps', beside⟩ := h
    obtain ⟨later', added', beside⟩ := beside.addRow added
    exact ⟨later', added', row, row', keeps, keeps', beside⟩

/-- Planted with other bytes, the tree leaves them in its row. -/
theorem rawTree_carries (kept : KeptRaw raw.name) (index : UInt16) (offset offset' : Nat) :
    Carries Eq (Exchanged raw bytes) ((rawTree index raw.name raw.bytes).plant offset)
      ((rawTree index raw.name bytes).plant offset') := by
  obtain ⟨column, only, type⟩ := exists_column kept
  rw [plant_rawTree only, plant_rawTree only]
  refine .bind (fair_eq.openTable raw.name) fun _ => ?_
  intro p q p' reference same run
  obtain ⟨i, added, rfl, -⟩ := addRow_eq_ok.mp run
  rw [same] at added
  let row (bytes : List UInt8) : Row String :=
    ⟨raw.name, 0, [⟨column, bytes.length, bytes.length, .bytes bytes⟩]⟩
  obtain ⟨later, added', beside⟩ : ∃ later, Store.addRow (row bytes) q.store = .ok i later ∧
      p'.store.Beside { row raw.bytes with index := i } { row bytes with index := i } later :=
    Store.exists_addRow_beside rfl rfl added
  refine ⟨⟨later, _⟩, addRow_eq_ok.mpr ⟨i, added', rfl, rfl⟩, _, _, ?_, ?_, beside⟩
  · exact ⟨rfl, column, only, type, rfl⟩
  · exact ⟨rfl, column, only, type, rfl⟩

variable {named : Nat → String → Prop}

mutual

theorem Field.exists_exchange (len : bytes.length = raw.bytes.length) :
    ∀ {field : Field} {offset : Nat}, raw ∈ field.raws offset → field.Fits named →
      ∃ field' : Field, field'.type = field.type ∧ field'.Fits named ∧
        field'.depth = field.depth ∧ Patched raw bytes offset field.encode field'.encode ∧
        ∀ place place' column, Carries Eq (Exchanged raw bytes) (field.plant place column)
          (field'.plant place' column)
  | .plain _, _, h, _ => nomatch h
  | .entries _ _, _, h, _ => nomatch h
  | .attributes trees, offset, h, fits => by
      obtain ⟨trees', count, fits', depth, patched, planted⟩ := exists_exchange len h fits.2
      refine ⟨.attributes trees', rfl, ⟨count ▸ fits.1, fits'⟩, ?_, ?_, ?_⟩
      · rw [Field.depth, Field.depth, depth]
      · rw [Field.encode, Field.encode, count]
        exact .behind _ (by rwa [length_digits])
      · intro place place' column
        rw [Field.plant, Field.plant, count, patched.length_eq len]
        exact .bind (planted _ _) fun _ => .pure _

theorem exists_fields_exchange (len : bytes.length = raw.bytes.length) :
    ∀ {fields : List Field} {types : List ColumnType} {offset : Nat},
      raw ∈ fieldsRaws offset fields → FieldsFit named fields types →
      ∃ fields', FieldsFit named fields' types ∧ fieldsDepth fields' = fieldsDepth fields ∧
        Patched raw bytes offset (encodeFields fields) (encodeFields fields') ∧
        ∀ place place' columns, columns.map Column.type = types →
          Carries Eq (Exchanged raw bytes) (plantFields place fields columns)
            (plantFields place' fields' columns)
  | [], _, _, h, _ => nomatch h
  | _ :: _, [], _, _, fits => fits.elim
  | field :: rest, type :: types, offset, h, ⟨same, fit, fits⟩ => by
      rcases List.mem_append.mp h with here | there
      · obtain ⟨field', type', fit', depth, patched, planted⟩ := Field.exists_exchange len here fit
        refine ⟨field' :: rest, ⟨type'.trans same, fit', fits⟩, ?_, patched.before _, ?_⟩
        · rw [fieldsDepth, fieldsDepth, depth]
        · intro place place' columns types
          cases columns with
          | nil => cases types
          | cons column columns =>
              rw [plantFields, plantFields]
              exact .bind (planted _ _ column) fun _ =>
                .bind ((fair_exchanged raw bytes).plantFields _ _ rest columns) fun _ => .pure _
      · obtain ⟨rest', fits', depth, patched, planted⟩ := exists_fields_exchange len there fits
        refine ⟨field :: rest', ⟨same, fit, fits'⟩, ?_, patched.behind field.encode, ?_⟩
        · rw [fieldsDepth, fieldsDepth, depth]
        · intro place place' columns types
          cases columns with
          | nil => cases types
          | cons column columns =>
              rw [plantFields, plantFields]
              exact .bind (fair_eq.plantField _ _ column field) fun _ =>
                .bind (planted _ _ columns (List.cons.inj types).2) fun _ => .pure _

theorem Tree.exists_exchange (len : bytes.length = raw.bytes.length) :
    ∀ {tree : Tree} {offset : Nat}, raw ∈ tree.raws offset → tree.Fits named →
      ∃ tree' : Tree, tree'.nameIndex = tree.nameIndex ∧ tree'.Fits named ∧
        tree'.depth = tree.depth ∧ Patched raw bytes offset tree.payload tree'.payload ∧
        ∀ place place',
          Carries Eq (Exchanged raw bytes) (tree.plant place) (tree'.plant place')
  | .node index name fields unread, offset, h, fits => by
      rw [Tree.raws] at h
      split at h
      next kept =>
          obtain rfl := List.mem_singleton.mp h
          rw [eq_rawTree kept fits]
          have bound : bytes.length < 2 ^ 32 := len ▸ fits.2.2.1
          refine ⟨rawTree index name bytes, rfl, rawTree_fits kept fits.1 bound, rfl, ?_, ?_⟩
          · rw [payload_rawTree, payload_rawTree]
            exact ⟨[], [], by simp, by simp, rfl⟩
          · intro place place'
            exact rawTree_carries kept index place place'
      next =>
          obtain ⟨known, shape, bound, ending⟩ := fits
          obtain ⟨fields', shape', depth, patched, planted⟩ := exists_fields_exchange len h shape
          have whole := patched.before unread
          have bound' : (encodeFields fields' ++ unread).length < 2 ^ 32 := by
            rwa [whole.length_eq len]
          refine ⟨.node index name fields' unread, rfl, ⟨known, shape', bound', ending⟩, depth,
            whole, ?_⟩
          intro place place'
          rw [Tree.plant, Tree.plant]
          have cells := planted place place' (columnsOf name) (columnsOf_structure name)
          exact .bind (fair_eq.plantRow (fair_exchanged raw bytes) name cells) fun _ =>
            .bind (Fair.noteUnread name _ _ unread.length) fun _ => .pure _

/-- Trees in which other bytes stand for those of a raw payload are planted in
the same way, but for the row that keeps them. -/
theorem exists_exchange (len : bytes.length = raw.bytes.length) :
    ∀ {trees : List Tree} {offset : Nat}, raw ∈ treesRaws offset trees → TreesFit named trees →
      ∃ trees' : List Tree, trees'.length = trees.length ∧ TreesFit named trees' ∧
        treesDepth trees' = treesDepth trees ∧
        Patched raw bytes offset (encodeTrees trees) (encodeTrees trees') ∧
        ∀ place place', Carries Eq (Exchanged raw bytes) (plantTrees place trees)
          (plantTrees place' trees')
  | [], _, h, _ => nomatch h
  | tree :: rest, offset, h, ⟨fit, fits⟩ => by
      rcases List.mem_append.mp h with here | there
      · obtain ⟨tree', index, fit', depth, patched, planted⟩ := Tree.exists_exchange len here fit
        refine ⟨tree' :: rest, rfl, ⟨fit', fits⟩, ?_, ?_, ?_⟩
        · rw [treesDepth, treesDepth, depth]
        · rw [encodeTrees_cons, encodeTrees_cons]
          exact (patched.encode index len).before _
        · intro place place'
          rw [plantTrees, plantTrees]
          exact .bind (planted _ _) fun _ =>
            .bind ((fair_exchanged raw bytes).plantTrees _ _ rest) fun _ => .pure _
      · obtain ⟨rest', count, fits', depth, patched, planted⟩ := exists_exchange len there fits
        refine ⟨tree :: rest', by rw [List.length_cons, List.length_cons, count], ⟨fit, fits'⟩,
          ?_, ?_, ?_⟩
        · rw [treesDepth, treesDepth, depth]
        · rw [encodeTrees_cons, encodeTrees_cons]
          exact patched.behind tree.encode
        · intro place place'
          rw [plantTrees, plantTrees]
          exact .bind (fair_eq.plantTree _ _ tree) fun _ => .bind (planted _ _) fun _ => .pure _

end

end Exchange

section Lists

variable {source : Source} {constants : Constant.Pool}

/-- With other bytes in the range of a raw payload, the same is read, up to the
row that keeps them. -/
theorem readAttributes_exchanged (small : source.size < 2 ^ 32) {trees : List Tree} {s t : Scan}
    {references : List (Reference String)} (fits : TreesFit (Named constants) trees)
    (depth : treesDepth trees ≤ maxNesting) (holds : source.Holds s.offset (encodeTrees trees))
    (moved : t.offset = s.offset + (encodeTrees trees).length)
    (planted : plantTrees s.offset trees s.pool = .ok references t.pool) {raw : RawPayload}
    (member : raw ∈ treesRaws s.offset trees) {bytes : List UInt8} {other : Source}
    (len : bytes.length = raw.bytes.length)
    (same : source.SameAround other raw.offset raw.bytes.length)
    (there : other.Holds raw.offset bytes) :
    ∃ t' : Scan, readAttributes other constants trees.length s = .ok references t' ∧
      t'.offset = t.offset ∧ Exchanged raw bytes t.pool.store t'.pool.store := by
  obtain ⟨trees', count, fits', depth', patched, carries⟩ := exists_exchange len member fits
  obtain ⟨pool, planted', exchanged⟩ := carries s.offset s.offset rfl planted
  have size := patched.length_eq len
  obtain ⟨front, back, first, second, place⟩ := patched
  rw [first, Source.holds_append, Source.holds_append, ← place] at holds
  obtain ⟨⟨before, -⟩, after⟩ := holds
  rw [List.length_append, ← Nat.add_assoc, ← place] at after
  have inFront := before.of_same fun i _ below => same.around i (.inl (by omega))
  have behind := after.of_same fun i above _ => same.around i (.inr above)
  have whole : other.Holds s.offset (encodeTrees trees') := by
    rw [second, Source.holds_append, Source.holds_append, ← place, List.length_append,
      ← Nat.add_assoc, ← place, len]
    exact ⟨⟨inFront, there⟩, behind⟩
  have small' : other.size < 2 ^ 32 := by rwa [same.size]
  refine ⟨⟨pool, t.offset⟩, (readAttributes_eq_ok small').mpr ?_, rfl, exchanged⟩
  exact ⟨trees', count, fits', depth' ▸ depth, whole, by rw [moved, size], planted'⟩

theorem holds_of_mem_raws {trees : List Tree} {offset : Nat} {named : Nat → String → Prop}
    (fits : TreesFit named trees) (holds : source.Holds offset (encodeTrees trees))
    {raw : RawPayload} (member : raw ∈ treesRaws offset trees) :
    source.Holds raw.offset raw.bytes := by
  obtain ⟨_, -, -, -, patched, -⟩ := exists_exchange rfl member fits
  obtain ⟨front, back, first, -, place⟩ := patched
  rw [first, Source.holds_append, Source.holds_append, ← place] at holds
  exact holds.1.2

end Lists

/-- An attribute that is kept as it is is read from any payload, wherever it
stands, if only there is an index for its row: the row has the bytes up to the
length in the header. Other bytes in the place of such a payload leave all else
as it is. -/
theorem keptRaw_exact (constants : Constant.Pool) :
    (∀ (header : Header) (name : String) (bytes : List UInt8), KeptRaw name →
      constants.utf8 header.nameIndex.toNat = .ok name → bytes.length = header.length.toNat →
        (∀ (levels : Nat) (s : Payload) (behind : List UInt8), s.pool.Sound →
          s.window.rest = header.encode ++ bytes ++ behind →
            (s.pool.store.rowCount < 2 ^ 32 ↔ ∃ reference t,
              readNested constants (nestedList constants levels) s = .ok reference t ∧
                s.window.Consumes (header.encode ++ bytes) t.window ∧
                LeavesRow name bytes reference t.pool)) ∧
        ∀ (source : Source) (s : Scan), source.size < 2 ^ 32 → s.pool.Sound →
          source.Holds s.offset (header.encode ++ bytes) →
            (s.pool.store.rowCount < 2 ^ 32 ↔ ∃ reference t,
              readAttribute source constants s = .ok reference t ∧
                t.offset = s.offset + header.span ∧ LeavesRow name bytes reference t.pool)) ∧
    ∀ (source : Source) (count : Nat) (s t : Scan) (references : List (Reference String)),
      source.size < 2 ^ 32 → readAttributes source constants count s = .ok references t →
        ∃ trees : List Tree, (trees.length = count ∧ TreesFit (Named constants) trees ∧
            source.Holds s.offset (encodeTrees trees)) ∧
          (∀ others : List Tree, others.length = count → TreesFit (Named constants) others →
            source.Holds s.offset (encodeTrees others) → others = trees) ∧
          ∀ raw ∈ treesRaws s.offset trees, source.Holds raw.offset raw.bytes ∧
            ∀ (other : Source) (bytes : List UInt8), bytes.length = raw.bytes.length →
              source.SameAround other raw.offset raw.bytes.length →
              other.Holds raw.offset bytes →
                ∃ t' : Scan, readAttributes other constants count s = .ok references t' ∧
                  t'.offset = t.offset ∧ Exchanged raw bytes t.pool.store t'.pool.store := by
  constructor
  · intro header name bytes kept known len
    constructor
    · intro levels s behind sound front
      exact readNested_raw kept known len levels sound front
    · intro source s small sound front
      exact readAttribute_raw kept known len small sound front
  · intro source count s t references small run
    obtain ⟨trees, rfl, fits, depth, holds, moved, planted⟩ := (readAttributes_eq_ok small).mp run
    refine ⟨trees, ⟨rfl, fits, holds⟩, ?_, fun raw member => ⟨?_, ?_⟩⟩
    · intro others count fits' holds'
      exact trees_unique fits' fits count holds' holds
    · exact holds_of_mem_raws fits holds member
    · intro other bytes len same there
      exact readAttributes_exchanged small fits depth holds moved planted member len same there

/-- The pool that is read off the names of a method body and of an unknown
attribute. -/
def vendorConstants : Constant.Pool :=
  Constant.namesPool ["Code", "Vendor"] (by decide) (by decide)

/-- An unknown attribute in a method body. -/
def vendorTrees (bytes : List UInt8) : List Tree :=
  [.node 1 "Code"
    [.plain (.short 1), .plain (.short 2), .plain (.bytes [0xB1]), .entries .exceptionHandler [],
      .attributes [rawTree 2 "Vendor" bytes]]
    [0xFF]]

def vendorSource (bytes : List UInt8) : Source := ⟨(encodeTrees (vendorTrees bytes)).toArray⟩

theorem named_vendorConstants :
    Named vendorConstants 1 "Code" ∧ Named vendorConstants 2 "Vendor" :=
  ⟨Constant.utf8_namesPool _ _ (by decide), Constant.utf8_namesPool _ _ (by decide)⟩

theorem vendorTrees_fit {bytes : List UInt8} (few : bytes.length < 256) :
    TreesFit (Named vendorConstants) (vendorTrees bytes) := by
  have code : structureOf "Code" =
      [.uint16, .uint16, .byteArray, .entries .exceptionHandler, .attributes] := rfl
  have kept : KeptRaw "Vendor" := by decide
  obtain ⟨first, second⟩ := named_vendorConstants
  have inner : (rawTree 2 "Vendor" bytes).Fits (Named vendorConstants) :=
    rawTree_fits kept second (by omega)
  have size : (encodeTrees [rawTree 2 "Vendor" bytes]).length = 6 + bytes.length := by
    simp [encodeTrees, payload_rawTree, length_digits]
    omega
  simp [vendorTrees, TreesFit, Tree.Fits, FieldsFit, Field.Fits, Field.type, Plain.type, Plain.Fits,
    code, first, inner, encodeFields, Field.encode, Plain.encode, length_digits,
    size]
  omega

theorem sameAround_vendorSource :
    (vendorSource [1, 2, 3]).SameAround (vendorSource [4, 5, 6]) 25 3 := by
  refine ⟨by decide, fun i apart => ?_⟩
  by_cases inside : i < 29
  · have agree : ∀ i : Fin 29, i.val < 25 ∨ 28 ≤ i.val →
        (vendorSource [4, 5, 6]).bytes[i.val]? = (vendorSource [1, 2, 3]).bytes[i.val]? := by
      decide
    exact agree ⟨i, inside⟩ apart
  · have behind (bytes : Array UInt8) (size : bytes.size = 29) : bytes[i]? = none := by
      rw [Array.getElem?_eq_none_iff]
      omega
    rw [behind _ rfl, behind _ rfl]

/-- An unknown attribute on its own and in a method body, and other bytes in it. -/
theorem keptRaw_exact_vendor :
    (∃ reference t, readNested vendorConstants (nestedList vendorConstants 3)
        ⟨{}, .ofArray #[0, 2, 0, 0, 0, 3, 7, 8, 9, 0] 5⟩ = .ok reference t ∧
      LeavesRow "Vendor" [7, 8, 9] reference t.pool) ∧
    (∃ reference t, readAttribute ⟨⟨#[0, 2, 0, 0, 0, 3, 7, 8, 9, 0]⟩⟩ vendorConstants ⟨{}, 0⟩ =
        .ok reference t ∧ t.offset = 0 + 9 ∧ LeavesRow "Vendor" [7, 8, 9] reference t.pool) ∧
    ∃ references t t',
      readAttributes (vendorSource [1, 2, 3]) vendorConstants 1 ⟨{}, 0⟩ = .ok references t ∧
        readAttributes (vendorSource [4, 5, 6]) vendorConstants 1 ⟨{}, 0⟩ = .ok references t' ∧
        t'.offset = t.offset ∧
        Exchanged ⟨"Vendor", 25, [1, 2, 3]⟩ [4, 5, 6] t.pool.store t'.pool.store := by
  have kept : KeptRaw "Vendor" := by decide
  have known := named_vendorConstants.2
  have room : ({} : Pool).store.rowCount < 2 ^ 32 := by decide
  obtain ⟨alone, within⟩ := keptRaw_exact vendorConstants
  obtain ⟨nested, listed⟩ := alone ⟨2, 3⟩ "Vendor" [7, 8, 9] kept known rfl
  refine ⟨?_, ?_, ?_⟩
  · obtain ⟨reference, t, run, -, leaves⟩ :=
      (nested 3 ⟨{}, .ofArray #[0, 2, 0, 0, 0, 3, 7, 8, 9, 0] 5⟩ [0] Pool.sound_empty rfl).mp room
    exact ⟨reference, t, run, leaves⟩
  · have front : Source.Holds ⟨⟨#[0, 2, 0, 0, 0, 3, 7, 8, 9, 0]⟩⟩ 0
        (Header.encode ⟨2, 3⟩ ++ [7, 8, 9]) := ⟨[0], rfl⟩
    exact (listed ⟨⟨#[0, 2, 0, 0, 0, 3, 7, 8, 9, 0]⟩⟩ ⟨{}, 0⟩ (by decide) Pool.sound_empty front).mp
      room
  · have small : (vendorSource [1, 2, 3]).size < 2 ^ 32 := by decide
    have fits : TreesFit (Named vendorConstants) (vendorTrees [1, 2, 3]) :=
      vendorTrees_fit (by decide)
    have holds : (vendorSource [1, 2, 3]).Holds 0 (encodeTrees (vendorTrees [1, 2, 3])) :=
      List.prefix_rfl
    have fine : succeeds (readAttributes (vendorSource [1, 2, 3]) vendorConstants 1) ⟨{}, 0⟩ =
        true := by decide +kernel
    obtain ⟨references, t, run⟩ := exists_ok_of_succeeds fine
    obtain ⟨trees, -, only, exchange⟩ :=
      within (vendorSource [1, 2, 3]) 1 ⟨{}, 0⟩ t references small run
    obtain rfl := only (vendorTrees [1, 2, 3]) rfl fits holds
    obtain ⟨t', again, place, exchanged⟩ :=
      (exchange ⟨"Vendor", 25, [1, 2, 3]⟩ (by decide)).2 (vendorSource [4, 5, 6]) [4, 5, 6] rfl
        sameAround_vendorSource ⟨[0xFF], rfl⟩
    exact ⟨references, t, t', run, again, place, exchanged⟩

end ClassFormat.Attribute
