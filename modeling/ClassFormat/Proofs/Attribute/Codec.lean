import ClassFormat.Proofs.Attribute.Cells

/-!
# What reading attributes succeeds on

Reading succeeds exactly on the written form of trees that have the structure
of their names, and then does to the pool what planting them does. There is one
such law for every function of the reader that trees depend on, from the fields
of a record up to lists of attributes.
-/
namespace ClassFormat.Attribute

open BigEndian PayloadReader

/-- A list of attributes is read off trees that fit, with fewer than `levels`
lists nested in them. -/
def ReadsTrees (named : Nat → String → Prop) (levels : Nat)
    (readList : Nat → PayloadReader (List (Reference String))) : Prop :=
  ∀ ⦃count : Nat⦄ ⦃s t : Payload⦄ ⦃references : List (Reference String)⦄,
    readList count s = .ok references t ↔
      ∃ trees, trees.length = count ∧ TreesFit named trees ∧ treesDepth trees < levels ∧
        s.Yields (encodeTrees trees) (plantTrees s.window.offset trees) references t

section Fields

variable {s t : Payload} {named : Nat → String → Prop} {levels : Nat}
  {readList : Nat → PayloadReader (List (Reference String))}

theorem number_eq_ok {width n : Nat} :
    onWindow (Window.number width) s = .ok n t ↔ n < 256 ^ width ∧ s.Passes (digits width n) t := by
  constructor
  · intro h
    obtain ⟨run, pool⟩ := onWindow_eq_ok.mp h
    obtain ⟨bound, consumes⟩ := Window.number_eq_ok.mp run
    exact ⟨bound, consumes, pure_eq_ok.mpr ⟨rfl, pool.symm⟩⟩
  · intro h
    obtain ⟨bound, passes⟩ := h
    refine onWindow_eq_ok.mpr ⟨Window.number_eq_ok.mpr ⟨bound, passes.consumes⟩, ?_⟩
    exact (pure_eq_ok.mp passes.planted).2.symm

theorem readEntries_eq_ok {entry : Entry} {result : Nat × Value String} :
    readEntries entry s = .ok result t ↔
      ∃ records : List Record, ∃ references,
        records.length < 256 ^ (if entry = .methodParameter then 1 else 2) ∧
        (∀ record ∈ records, record.Fits (fieldsOf entry)) ∧
        result = (records.length, .references references) ∧
        s.Yields (digits (if entry = .methodParameter then 1 else 2) records.length ++
            records.flatMap Record.encode)
          (records.mapM (Record.plant entry)) references t := by
  rw [← Entry.countWidth_eq]
  constructor
  · intro h
    obtain ⟨count, r, first, h⟩ := bind_eq_ok.mp h
    obtain ⟨references, r', second, done⟩ := bind_eq_ok.mp h
    obtain ⟨rfl, rfl⟩ := pure_eq_ok.mp done
    obtain ⟨bound, passes⟩ := number_eq_ok.mp first
    obtain ⟨records, rfl, fits, yields⟩ := collect_readEntry_eq_ok.mp second
    exact ⟨records, references, bound, fits, rfl, Payload.Yields.pass_iff.mpr ⟨r, passes, yields⟩⟩
  · intro h
    obtain ⟨records, references, bound, fits, rfl, yields⟩ := h
    obtain ⟨r, passes, yields⟩ := Payload.Yields.pass_iff.mp yields
    refine bind_eq_ok.mpr ⟨records.length, r, number_eq_ok.mpr ⟨bound, passes⟩, ?_⟩
    refine bind_eq_ok.mpr ⟨references, t, ?_, rfl⟩
    exact collect_readEntry_eq_ok.mpr ⟨records, rfl, fits, yields⟩

theorem readCell_attributes {column : Column String} (type : column.type = .attributes) :
    readCell readList column = readSized column (do
      let count ← onWindow Window.short
      let references ← readList count.toNat
      return (count.toNat, .references references)) := by
  unfold readCell Steps.readCell
  rw [type]
  rfl

theorem readCell_entries {column : Column String} {entry : Entry}
    (type : column.type = .entries entry) :
    readCell readList column = readSized column (readEntries entry) := by
  unfold readCell Steps.readCell
  rw [type]
  rfl

theorem readCell_plain {column : Column String} (attributes : column.type ≠ .attributes)
    (entries : ∀ entry, column.type ≠ .entries entry) :
    readCell readList column = readPlainCell column := by
  unfold readCell Steps.readCell
  split
  next h => exact (attributes h).elim
  next h => exact (entries _ h).elim
  next => rfl

/-- What holds of the three ways to read a cell holds of reading it. -/
theorem readCell_cases {column : Column String} {P : PayloadReader (Cell String) → Prop}
    (attributes : column.type = .attributes → P (readSized column (do
      let count ← onWindow Window.short
      let references ← readList count.toNat
      return (count.toNat, .references references))))
    (entries : ∀ entry, column.type = .entries entry → P (readSized column (readEntries entry)))
    (plain : P (readPlainCell column)) : P (readCell readList column) := by
  by_cases nested : column.type = .attributes
  · rw [readCell_attributes nested]
    exact attributes nested
  by_cases listed : ∃ entry, column.type = .entries entry
  · obtain ⟨entry, type⟩ := listed
    rw [readCell_entries type]
    exact entries entry type
  · rw [readCell_plain nested (not_exists.mp listed)]
    exact plain

variable (named) in
/-- A cell that is read off a field that holds records is as large as the bytes
of the field. -/
theorem readEntriesCell_eq_ok {column : Column String} {entry : Entry}
    (type : column.type = .entries entry) {cell : Cell String} :
    readSized column (readEntries entry) s = .ok cell t ↔
      ∃ records : List Record, (Field.entries entry records).Fits named ∧
        s.Yields (Field.entries entry records).encode
          ((Field.entries entry records).plant s.window.offset column) cell t := by
  rw [readSized_eq_ok]
  simp only [Field.Fits, Field.encode, Field.plant]
  constructor
  · intro h
    obtain ⟨result, run, -, rfl⟩ := h
    obtain ⟨records, references, bound, fits, rfl, yields⟩ := readEntries_eq_ok.mp run
    refine ⟨records, ⟨bound, fits⟩, Payload.Yields.map_iff.mpr ⟨references, yields, ?_⟩⟩
    rw [yields.consumes.position_eq, Nat.add_sub_cancel_left, List.length_append, length_digits]
  · intro h
    obtain ⟨records, ⟨bound, fits⟩, yields⟩ := h
    obtain ⟨references, planted, rfl⟩ := Payload.Yields.map_iff.mp yields
    refine ⟨_, readEntries_eq_ok.mpr ⟨records, references, bound, fits, rfl, planted⟩, ?_, ?_⟩
    · rw [type]
      rfl
    · rw [planted.consumes.position_eq, Nat.add_sub_cancel_left, List.length_append, length_digits]

theorem readListCell_eq_ok (law : ReadsTrees named levels readList) {column : Column String}
    (type : column.type = .attributes) {cell : Cell String} :
    readSized column (do
        let count ← onWindow Window.short
        let references ← readList count.toNat
        return (count.toNat, .references references)) s = .ok cell t ↔
      ∃ trees : List Tree, (Field.attributes trees).Fits named ∧
        (Field.attributes trees).depth ≤ levels ∧
        s.Yields (Field.attributes trees).encode
          ((Field.attributes trees).plant s.window.offset column) cell t := by
  rw [readSized_eq_ok]
  simp only [Field.Fits, Field.depth, Field.encode, Field.plant]
  constructor
  · intro h
    obtain ⟨result, run, -, rfl⟩ := h
    obtain ⟨count, r, first, run⟩ := bind_eq_ok.mp run
    obtain ⟨references, r', second, done⟩ := bind_eq_ok.mp run
    obtain ⟨rfl, rfl⟩ := pure_eq_ok.mp done
    have passes := short_eq_ok.mp first
    obtain ⟨trees, len, fits, depth, yields⟩ := law.mp second
    rw [← len] at passes ⊢
    rw [passes.consumes.offset_eq, length_digits] at yields
    have both := Payload.Yields.pass_iff.mpr ⟨r, passes, yields⟩
    refine ⟨trees, ⟨len ▸ count.toNat_lt, fits⟩, depth, ?_⟩
    refine Payload.Yields.map_iff.mpr ⟨references, both, ?_⟩
    rw [both.consumes.position_eq, Nat.add_sub_cancel_left, List.length_append, length_digits]
  · intro h
    obtain ⟨trees, ⟨bound, fits⟩, depth, yields⟩ := h
    obtain ⟨references, both, rfl⟩ := Payload.Yields.map_iff.mp yields
    obtain ⟨r, passes, yields⟩ := Payload.Yields.pass_iff.mp both
    have len : (UInt16.ofNat trees.length).toNat = trees.length := UInt16.toNat_ofNat_of_lt' bound
    refine ⟨(trees.length, .references references), ?_, ?_, ?_⟩
    · refine bind_eq_ok.mpr ⟨UInt16.ofNat trees.length, r, short_eq_ok.mpr (by rwa [len]), ?_⟩
      rw [len]
      refine bind_eq_ok.mpr ⟨references, t, law.mpr ⟨trees, rfl, fits, depth, ?_⟩, rfl⟩
      rwa [passes.consumes.offset_eq, length_digits]
    · rw [type]
      rfl
    · rw [both.consumes.position_eq, Nat.add_sub_cancel_left, List.length_append, length_digits]

theorem Plain.type_ne (field : Plain) :
    field.type ≠ .attributes ∧ ∀ entry, field.type ≠ .entries entry := by
  cases field <;> exact ⟨nofun, nofun⟩

theorem readCell_eq_ok (law : ReadsTrees named levels readList) {column : Column String}
    {cell : Cell String} :
    readCell readList column s = .ok cell t ↔
      ∃ field : Field, field.type = column.type ∧ field.Fits named ∧ field.depth ≤ levels ∧
        s.Yields field.encode (field.plant s.window.offset column) cell t ∧
        (column.type = .raw → t.window.rest = []) := by
  constructor
  · intro h
    by_cases attributes : column.type = .attributes
    · rw [readCell_attributes attributes] at h
      obtain ⟨trees, fits, depth, yields⟩ := (readListCell_eq_ok law attributes).mp h
      exact ⟨.attributes trees, attributes.symm, fits, depth, yields,
        fun raw => nomatch attributes.symm.trans raw⟩
    by_cases entries : ∃ entry, column.type = .entries entry
    · obtain ⟨entry, type⟩ := entries
      rw [readCell_entries type] at h
      obtain ⟨records, fits, yields⟩ := (readEntriesCell_eq_ok named type).mp h
      exact ⟨.entries entry records, type.symm, fits, Nat.zero_le _, yields,
        fun raw => nomatch type.symm.trans raw⟩
    · rw [readCell_plain attributes (not_exists.mp entries)] at h
      obtain ⟨field, type, fits, rfl, passes, rest⟩ := readPlainCell_eq_ok.mp h
      exact ⟨.plain field, type, fits, Nat.zero_le _,
        Payload.Yields.pure_iff.mpr ⟨rfl, passes⟩, rest⟩
  · intro h
    obtain ⟨field, type, fits, depth, yields, rest⟩ := h
    cases field with
    | plain field =>
        obtain ⟨rfl, passes⟩ := Payload.Yields.pure_iff.mp yields
        rw [readCell_plain (type ▸ field.type_ne.1) (type ▸ field.type_ne.2)]
        exact readPlainCell_eq_ok.mpr ⟨field, type, fits, rfl, passes, rest⟩
    | entries entry records =>
        rw [readCell_entries type.symm]
        exact (readEntriesCell_eq_ok named type.symm).mpr ⟨records, fits, yields⟩
    | attributes trees =>
        rw [readCell_attributes type.symm]
        exact (readListCell_eq_ok law type.symm).mpr ⟨trees, fits, depth, yields⟩

theorem mapM_readCell_eq_ok (law : ReadsTrees named levels readList)
    {columns : List (Column String)} (rawLast : .raw ∉ (columns.map Column.type).dropLast)
    {cells : List (Cell String)} :
    columns.mapM (readCell readList) s = .ok cells t ↔
      ∃ fields : List Field, FieldsFit named fields (columns.map Column.type) ∧
        fieldsDepth fields ≤ levels ∧
        s.Yields (encodeFields fields) (plantFields s.window.offset fields columns) cells t ∧
        (.raw ∈ columns.map Column.type → t.window.rest = []) := by
  induction columns generalizing s cells with
  | nil =>
      rw [mapM_nil_eq_ok]
      constructor
      · intro h
        obtain ⟨rfl, rfl⟩ := h
        exact ⟨[], trivial, Nat.zero_le _,
          Payload.Yields.pure_iff.mpr ⟨rfl, Payload.Yields.nil_iff.mpr rfl⟩, nofun⟩
      · intro h
        obtain ⟨fields, fits, -, yields, -⟩ := h
        cases fields with
        | nil =>
            obtain ⟨rfl, passes⟩ := Payload.Yields.pure_iff.mp yields
            exact ⟨rfl, Payload.Yields.nil_iff.mp passes⟩
        | cons => cases fits
  | cons column columns ih =>
      rw [List.map_cons] at rawLast
      have later := raw_notMem_dropLast_tail rawLast
      have last : column.type = .raw → columns = [] := by
        intro raw
        rw [raw] at rawLast
        exact List.map_eq_nil_iff.mp (eq_nil_of_raw_notMem_dropLast rawLast)
      rw [mapM_cons_eq_ok]
      constructor
      · intro h
        obtain ⟨cell, r, rest, first, others, rfl⟩ := h
        obtain ⟨field, type, fit, depth, yields, ending⟩ := (readCell_eq_ok law).mp first
        obtain ⟨fields, fits, depths, yields', ending'⟩ := (ih later).mp others
        rw [yields.consumes.offset_eq] at yields'
        refine ⟨field :: fields, ⟨type, fit, fits⟩, Nat.max_le.mpr ⟨depth, depths⟩, ?_, ?_⟩
        · refine Payload.Yields.bind_iff.mpr ⟨cell, r, yields, ?_⟩
          exact Payload.Yields.map_iff.mpr ⟨rest, yields', rfl⟩
        · intro raw
          rcases List.mem_cons.mp raw with here | there
          · cases last here.symm
            obtain ⟨-, rfl⟩ := mapM_nil_eq_ok.mp others
            exact ending here.symm
          · exact ending' there
      · intro h
        obtain ⟨fields, fits, depths, yields, ending⟩ := h
        cases fields with
        | nil => cases fits
        | cons field fields =>
            obtain ⟨type, fit, fits⟩ := fits
            obtain ⟨depth, depths⟩ := Nat.max_le.mp depths
            obtain ⟨cell, r, first, others⟩ := Payload.Yields.bind_iff.mp yields
            obtain ⟨rest, tail, rfl⟩ := Payload.Yields.map_iff.mp others
            rw [← first.consumes.offset_eq] at tail
            have run := (ih later).mpr
              ⟨fields, fits, depths, tail, fun raw => ending (List.mem_cons_of_mem _ raw)⟩
            refine ⟨cell, r, rest, (readCell_eq_ok law).mpr ⟨field, type, fit, depth, first, ?_⟩,
              run, rfl⟩
            intro raw
            cases last raw
            obtain ⟨-, rfl⟩ := mapM_nil_eq_ok.mp run
            exact ending (raw ▸ List.mem_cons_self)

end Fields

theorem Header.read_eq_ok {w w' : Window} {header : Header} :
    Header.read w = .ok (header, w') ↔
      w.Consumes (digits 2 header.nameIndex.toNat ++ digits 4 header.length.toNat) w' := by
  change Window.fields _ w = _ ↔ _
  rw [Window.fields_eq_ok, Window.Consumes.append_iff]
  simp only [Window.bind_eq_ok, Window.pure_eq_ok, Window.short_eq_ok, Window.word_eq_ok]
  constructor
  · intro h
    obtain ⟨nameIndex, v, first, length, u, second, rfl, rfl⟩ := h
    exact ⟨v, first, second⟩
  · intro h
    obtain ⟨v, first, second⟩ := h
    exact ⟨header.nameIndex, v, first, header.length, w', second, rfl, rfl⟩

/-- Whether the constant in a slot is a string. -/
def Named (constants : Constant.Pool) (slot : Nat) (name : String) : Prop :=
  constants.utf8 slot = .ok name

theorem encodeTrees_cons (tree : Tree) (rest : List Tree) :
    encodeTrees (tree :: rest) = tree.encode ++ encodeTrees rest := rfl

theorem onPayload_eq_ok {α : Type} {window w : Window} {read : PayloadReader α} {a : α}
    {pool pool' : Pool} :
    Pool.onPayload window read pool = .ok (a, w) pool' ↔
      read ⟨pool, window⟩ = .ok a ⟨pool', w⟩ := by
  unfold Pool.onPayload
  constructor
  · intro h
    split at h
    next run =>
      cases h
      exact run
    next => cases h
  · intro h
    rw [h]

section Attributes

variable {constants : Constant.Pool} {levels : Nat}
  {readList : Nat → PayloadReader (List (Reference String))}

theorem readFields_eq_ok {named : Nat → String → Prop} (law : ReadsTrees named levels readList)
    {name : String} {s t : Payload} {reference : Reference String} :
    readRecord (readCell readList) name s = .ok reference t ↔
      ∃ fields : List Field,
        (FieldsFit named fields (structureOf name) ∧ fieldsDepth fields ≤ levels ∧
          (.raw ∈ structureOf name → t.window.rest = [])) ∧
        s.Yields (encodeFields fields)
          (plantRow name (plantFields s.window.offset fields (columnsOf name))) reference t := by
  refine readRecord_eq_ok
    (fun fields w => FieldsFit named fields (structureOf name) ∧ fieldsDepth fields ≤ levels ∧
      (.raw ∈ structureOf name → w.rest = []))
    (fun fields offset => plantFields offset fields (columnsOf name)) ?_
  intro s cells t
  have rawLast := raw_notMem_dropLast name
  rw [← columnsOf_structure] at rawLast ⊢
  rw [mapM_readCell_eq_ok law rawLast]
  refine exists_congr fun fields => ?_
  tauto

theorem readPayload_of_named {header : Header} {name : String} {window : Window}
    (named : constants.utf8 header.nameIndex.toNat = .ok name) :
    readPayload constants readList header window = (do
      let read ← Pool.onPayload window (readRecord (readCell readList) name)
      noteUnread name read.2.offset read.2.remaining
      return read.1) := by
  unfold readPayload Steps.readPayload
  rw [named]
  refine bind_congr fun read => ?_
  change (if 0 < read.2.remaining then _ else _) = _
  by_cases left : 0 < read.2.remaining
  · rw [if_pos left, noteUnread, if_pos left]
    rfl
  · rw [if_neg left, noteUnread, if_neg left]
    rfl

theorem readPayload_of_nameless {header : Header} {e : TableError} {window : Window}
    (nameless : constants.utf8 header.nameIndex.toNat = .error e) :
    readPayload constants readList header window = throw (.table e) := by
  unfold readPayload Steps.readPayload
  rw [nameless]

/-- The payload of an attribute is read off a tree of the name in its header,
and what the fields of the tree leave is noted. -/
theorem readPayload_eq_ok (law : ReadsTrees (Named constants) levels readList) {header : Header}
    {window : Window} (bound : window.rest.length < 2 ^ 32) {reference : Reference String}
    {pool pool' : Pool} :
    readPayload constants readList header window pool = .ok reference pool' ↔
      ∃ tree : Tree, tree.nameIndex = header.nameIndex ∧ tree.Fits (Named constants) ∧
        tree.depth ≤ levels ∧ window.rest = tree.payload ∧
        tree.plant window.offset pool = .ok reference pool' := by
  constructor
  · intro h
    cases named : constants.utf8 header.nameIndex.toNat with
    | error e =>
        rw [readPayload_of_nameless named] at h
        exact (throw_ne_ok h).elim
    | ok name =>
        rw [readPayload_of_named named] at h
        obtain ⟨⟨ref, w⟩, r, run, noted⟩ := bind_eq_ok.mp h
        obtain ⟨fields, ⟨fits, depth, ending⟩, consumes, planted⟩ :=
          (readFields_eq_ok law).mp (onPayload_eq_ok.mp run)
        have whole := consumes.rest_eq
        dsimp only at ending consumes planted whole noted
        rw [consumes.offset_eq, ← Window.length_rest] at noted
        exact ⟨.node header.nameIndex name fields w.rest, rfl, ⟨named, fits, whole ▸ bound, ending⟩,
          depth, whole, bind_eq_ok.mpr ⟨ref, r, planted, noted⟩⟩
  · intro h
    obtain ⟨⟨_, name, fields, unread⟩, rfl, ⟨named, fits, -, ending⟩, depth, whole, planted⟩ := h
    obtain ⟨w, consumes, rfl⟩ := Window.exists_consumes whole
    obtain ⟨ref, r, planted, noted⟩ := bind_eq_ok.mp planted
    rw [← consumes.offset_eq, Window.length_rest] at noted
    rw [readPayload_of_named named]
    refine bind_eq_ok.mpr ⟨(ref, w), r, onPayload_eq_ok.mpr ?_, noted⟩
    exact (readFields_eq_ok law).mpr ⟨fields, ⟨fits, depth, ending⟩, consumes, planted⟩

theorem length_header (index : UInt16) (length : Nat) :
    (digits 2 index.toNat ++ digits 4 length).length = Header.size := by
  rw [List.length_append, length_digits, length_digits, Header.size]

theorem readNested_eq_ok (law : ReadsTrees (Named constants) levels readList) {s t : Payload}
    {reference : Reference String} :
    readNested constants readList s = .ok reference t ↔
      ∃ tree : Tree, tree.Fits (Named constants) ∧ tree.depth ≤ levels ∧
        s.Yields tree.encode (tree.plant (saturate (s.window.offset + Header.size))) reference
          t := by
  constructor
  · intro h
    obtain ⟨header, r, first, h⟩ := bind_eq_ok.mp h
    obtain ⟨window, u, second, third⟩ := bind_eq_ok.mp h
    have passes := (Payload.Yields.of_window Header.read_eq_ok).mp first
    obtain ⟨run, pool⟩ := onWindow_eq_ok.mp second
    obtain ⟨len, consumes, offset⟩ := Window.split_eq_ok run
    obtain ⟨run, window'⟩ := onPool_eq_ok.mp third
    obtain ⟨tree, name, fits, depth, whole, planted⟩ :=
      (readPayload_eq_ok law (len ▸ header.length.toNat_lt)).mp run
    rw [offset, passes.consumes.offset_eq, length_header, pool] at planted
    refine ⟨tree, fits, depth, ?_⟩
    rw [Tree.encode, name, ← whole, len]
    exact Payload.Yields.pass_iff.mpr ⟨r, passes, window' ▸ consumes, planted⟩
  · intro h
    obtain ⟨⟨index, name, fields, unread⟩, fits, depth, yields⟩ := h
    obtain ⟨r, passes, yields⟩ := Payload.Yields.pass_iff.mp yields
    obtain ⟨window, run, whole, offset⟩ := Window.exists_split yields.consumes
    have bound := fits.2.2.1
    have len : (UInt32.ofNat (encodeFields fields ++ unread).length).toNat =
      (encodeFields fields ++ unread).length := UInt32.toNat_ofNat_of_lt' bound
    have first : onWindow Header.read s =
        .ok ⟨index, UInt32.ofNat (encodeFields fields ++ unread).length⟩ r :=
      (Payload.Yields.of_window Header.read_eq_ok).mpr (by dsimp only; rwa [len])
    refine bind_eq_ok.mpr ⟨_, r, first, bind_eq_ok.mpr ⟨window, ⟨r.pool, t.window⟩, ?_, ?_⟩⟩
    · dsimp only
      rw [len]
      exact onWindow_eq_ok.mpr ⟨run, rfl⟩
    · have planted := yields.planted
      rw [passes.consumes.offset_eq, length_header] at offset
      rw [← offset] at planted
      have read : readPayload constants readList
          ⟨index, UInt32.ofNat (encodeFields fields ++ unread).length⟩ window r.pool =
            .ok reference t.pool :=
        (readPayload_eq_ok law (whole ▸ bound)).mpr ⟨_, rfl, fits, depth, whole, planted⟩
      exact onPool_eq_ok (s := ⟨r.pool, t.window⟩).mpr ⟨read, rfl⟩

theorem nestedList_succ (constants : Constant.Pool) (levels count : Nat) :
    nestedList constants (levels + 1) count =
      collect count (readNested constants (nestedList constants levels)) := rfl

/-- Lists of attributes nested in a payload are read off trees. -/
theorem nestedList_readsTrees (constants : Constant.Pool) (levels : Nat) :
    ReadsTrees (Named constants) levels (nestedList constants levels) := by
  induction levels with
  | zero =>
      intro count s t references
      constructor
      · intro h
        obtain ⟨offset, r, -, thrown⟩ := bind_eq_ok.mp h
        exact (throw_ne_ok thrown).elim
      · intro h
        obtain ⟨trees, -, -, depth, -⟩ := h
        cases depth
  | succ levels law =>
      intro count
      induction count with
      | zero =>
          intro s t references
          rw [nestedList_succ, collect_zero_eq_ok]
          constructor
          · intro h
            obtain ⟨rfl, rfl⟩ := h
            exact ⟨[], rfl, trivial, Nat.succ_pos _,
              Payload.Yields.pure_iff.mpr ⟨rfl, Payload.Yields.nil_iff.mpr rfl⟩⟩
          · intro h
            obtain ⟨trees, len, -, -, yields⟩ := h
            cases List.length_eq_zero_iff.mp len
            obtain ⟨rfl, passes⟩ := Payload.Yields.pure_iff.mp yields
            exact ⟨rfl, Payload.Yields.nil_iff.mp passes⟩
      | succ count ih =>
          intro s t references
          rw [nestedList_succ, collect_succ_eq_ok]
          constructor
          · intro h
            obtain ⟨reference, r, rest, first, others, rfl⟩ := h
            obtain ⟨tree, fit, depth, yields⟩ := (readNested_eq_ok law).mp first
            obtain ⟨trees, len, fits, depths, yields'⟩ := ih.mp others
            rw [yields.consumes.offset_eq] at yields'
            refine ⟨tree :: trees, by rw [List.length_cons, len], ⟨fit, fits⟩,
              Nat.lt_succ_of_le (Nat.max_le.mpr ⟨depth, Nat.le_of_lt_succ depths⟩), ?_⟩
            rw [encodeTrees_cons]
            refine Payload.Yields.bind_iff.mpr ⟨reference, r, yields, ?_⟩
            exact Payload.Yields.map_iff.mpr ⟨rest, yields', rfl⟩
          · intro h
            obtain ⟨trees, len, fits, depths, yields⟩ := h
            cases trees with
            | nil => cases len
            | cons tree trees =>
                obtain ⟨depth, depths⟩ := Nat.max_le.mp (Nat.le_of_lt_succ depths)
                rw [encodeTrees_cons] at yields
                obtain ⟨reference, r, first, others⟩ := Payload.Yields.bind_iff.mp yields
                obtain ⟨rest, tail, rfl⟩ := Payload.Yields.map_iff.mp others
                rw [← first.consumes.offset_eq] at tail
                refine ⟨reference, r, rest, ?_, ?_, rfl⟩
                · exact (readNested_eq_ok law).mpr ⟨tree, fits.1, depth, first⟩
                · exact ih.mpr
                    ⟨trees, Nat.succ.inj len, fits.2, Nat.lt_succ_of_le depths, tail⟩

end Attributes

end ClassFormat.Attribute
