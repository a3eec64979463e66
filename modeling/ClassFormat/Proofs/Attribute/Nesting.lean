import ClassFormat.Proofs.Attribute.Depth
import ClassFormat.Proofs.Attribute.RoundTrip

/-!
# Lists nested in each other

`treesLists level offset trees` are the places of the attribute lists that have
`level` others around them in trees, from front to back. Only method bodies
hold such lists, so there is one as soon as there is a chain of method bodies,
each directly in the one before, that is longer than `level`. Reading stops at
the first list that has too many others around it.
-/
namespace ClassFormat.Attribute

open BigEndian PayloadReader

mutual

/-- The offsets behind the counts of the lists in a field with so many others
around them. -/
def Field.lists : Nat → Nat → Field → List Nat
  | _, _, .plain _ | _, _, .entries _ _ => []
  | 0, offset, .attributes _ => [offset + 2]
  | level + 1, offset, .attributes trees => treesLists level (offset + 2) trees

def fieldsLists (level offset : Nat) : List Field → List Nat
  | [] => []
  | field :: rest =>
    field.lists level offset ++ fieldsLists level (offset + field.encode.length) rest

/-- From the offset of the payload on. -/
def Tree.lists (level offset : Nat) : Tree → List Nat
  | .node _ _ fields _ => fieldsLists level offset fields

/-- From the offset of the first header on. -/
def treesLists (level offset : Nat) : List Tree → List Nat
  | [] => []
  | tree :: rest =>
    tree.lists level (offset + Header.size) ++
      treesLists level (offset + tree.encode.length) rest

end

mutual

theorem Field.lists_eq_nil : ∀ {field : Field} {level offset : Nat},
    field.lists level offset = [] ↔ field.depth ≤ level
  | .plain _, _, _ | .entries _ _, _, _ => by simp [Field.lists, Field.depth]
  | .attributes _, 0, _ => by simp [Field.lists, Field.depth]
  | .attributes trees, level + 1, _ => by
      rw [Field.lists, Field.depth, treesLists_eq_nil, Nat.add_le_add_iff_right]

theorem fieldsLists_eq_nil : ∀ {fields : List Field} {level offset : Nat},
    fieldsLists level offset fields = [] ↔ fieldsDepth fields ≤ level
  | [], _, _ => by simp [fieldsLists, fieldsDepth]
  | field :: rest, _, _ => by
      rw [fieldsLists, fieldsDepth, List.append_eq_nil_iff, Field.lists_eq_nil, fieldsLists_eq_nil,
        Nat.max_le]

theorem Tree.lists_eq_nil : ∀ {tree : Tree} {level offset : Nat},
    tree.lists level offset = [] ↔ tree.depth ≤ level
  | .node _ _ fields _, _, _ => by rw [Tree.lists, Tree.depth, fieldsLists_eq_nil]

/-- No list has so many others around it if the trees are not that deep. -/
theorem treesLists_eq_nil : ∀ {trees : List Tree} {level offset : Nat},
    treesLists level offset trees = [] ↔ treesDepth trees ≤ level
  | [], _, _ => by simp [treesLists, treesDepth]
  | tree :: rest, _, _ => by
      rw [treesLists, treesDepth, List.append_eq_nil_iff, Tree.lists_eq_nil, treesLists_eq_nil,
        Nat.max_le]

end

/-- The attributes directly in a field. -/
def Field.inner : Field → List Tree
  | .plain _ | .entries _ _ => []
  | .attributes trees => trees

/-- The attributes directly in an attribute. -/
def Tree.inner (tree : Tree) : List Tree := tree.fields.flatMap Field.inner

/-- Method bodies, the first one of which is among the trees, and each other one
directly in the one before. -/
def CodeChain : List Tree → List Tree → Prop
  | _, [] => True
  | trees, tree :: chain => tree ∈ trees ∧ tree.name = Kind.code.name ∧ CodeChain tree.inner chain

theorem lt_fieldsDepth_iff {fields : List Field} {n : Nat} :
    n < fieldsDepth fields ↔ ∃ field ∈ fields, n < field.depth := by
  induction fields with
  | nil => simp [fieldsDepth]
  | cons field rest ih => simp [fieldsDepth, ih]

theorem lt_treesDepth_iff {trees : List Tree} {n : Nat} :
    n < treesDepth trees ↔ ∃ tree ∈ trees, n < tree.depth := by
  induction trees with
  | nil => simp [treesDepth]
  | cons tree rest ih => simp [treesDepth, ih]

/-- Only method bodies hold attributes. -/
theorem attributes_mem_typesOf {name : String} :
    .attributes ∈ typesOf name ↔ name = Kind.code.name := by
  constructor
  · intro member
    unfold typesOf layoutOf at member
    cases known : Kind.ofName? name with
    | none =>
        rw [known] at member
        exact absurd member (by decide)
    | some kind =>
        rw [known] at member
        have same : kind.name = name := by
          simpa using List.find?_some known
        rw [← same]
        cases kind with
        | code => rfl
        | ofEntry entry => exact absurd member (by cases entry <;> decide)
        | _ => exact absurd member (by decide)
  · intro same
    subst same
    decide

section Fits

variable {named : Nat → String → Prop}

theorem map_type_of_fieldsFit {fields : List Field} {types : List ColumnType}
    (fits : FieldsFit named fields types) : fields.map Field.type = types := by
  induction fields generalizing types with
  | nil =>
      cases types with
      | nil => rfl
      | cons => exact fits.elim
  | cons field rest ih =>
      cases types with
      | nil => exact fits.elim
      | cons type types => rw [List.map_cons, fits.1, ih fits.2.2]

theorem Field.fits_of_mem {fields : List Field} {types : List ColumnType}
    (fits : FieldsFit named fields types) {field : Field} (member : field ∈ fields) :
    field.Fits named := by
  induction fields generalizing types with
  | nil => cases member
  | cons first rest ih =>
      cases types with
      | nil => exact fits.elim
      | cons type types =>
          rcases List.mem_cons.mp member with rfl | member
          · exact fits.2.1
          · exact ih fits.2.2 member

theorem treesFit_iff {trees : List Tree} :
    TreesFit named trees ↔ ∀ tree ∈ trees, tree.Fits named := by
  induction trees with
  | nil => simp [TreesFit]
  | cons tree rest ih => simp [TreesFit, ih]

theorem Tree.Fits.inner {tree : Tree} (fits : tree.Fits named) : TreesFit named tree.inner := by
  obtain ⟨_, _, fields, _⟩ := tree
  rw [treesFit_iff]
  intro other member
  obtain ⟨field, within, member⟩ := List.mem_flatMap.mp member
  have fit := Field.fits_of_mem fits.2.1 within
  cases field with
  | plain | entries => cases member
  | attributes trees => exact treesFit_iff.mp fit.2 other member

/-- Exactly the method bodies have lists in them, and these are one level deeper
than what they hold. -/
theorem Tree.lt_depth_iff {tree : Tree} (fits : tree.Fits named) {n : Nat} :
    n < tree.depth ↔ tree.name = Kind.code.name ∧ n ≤ treesDepth tree.inner := by
  obtain ⟨_, name, fields, _⟩ := tree
  have types := (map_type_of_fieldsFit fits.2.1).trans (structureOf_eq name)
  rw [Tree.depth, lt_fieldsDepth_iff]
  constructor
  · intro h
    obtain ⟨field, within, deep⟩ := h
    have type : field.type ∈ typesOf name := types ▸ List.mem_map_of_mem within
    cases field with
    | plain | entries => exact absurd deep (Nat.not_lt_zero n)
    | attributes trees =>
        refine ⟨attributes_mem_typesOf.mp type, ?_⟩
        cases n with
        | zero => exact Nat.zero_le _
        | succ n =>
            obtain ⟨tree, member, deep⟩ := lt_treesDepth_iff.mp (Nat.lt_of_succ_lt_succ deep)
            exact lt_treesDepth_iff.mpr ⟨tree, List.mem_flatMap.mpr ⟨_, within, member⟩, deep⟩
  · intro h
    obtain ⟨body, deep⟩ := h
    cases n with
    | zero =>
        have listed : .attributes ∈ fields.map Field.type := types ▸ attributes_mem_typesOf.mpr body
        obtain ⟨field, within, type⟩ := List.mem_map.mp listed
        refine ⟨field, within, ?_⟩
        cases field with
        | plain field => exact absurd type field.type_ne.1
        | entries => cases type
        | attributes trees => exact Nat.succ_pos _
    | succ n =>
        obtain ⟨tree, member, deep⟩ := lt_treesDepth_iff.mp deep
        obtain ⟨field, within, member⟩ := List.mem_flatMap.mp member
        refine ⟨field, within, ?_⟩
        cases field with
        | plain | entries => cases member
        | attributes trees =>
            exact Nat.succ_lt_succ (lt_treesDepth_iff.mpr ⟨tree, member, deep⟩)

/-- The depth of trees is the length of the longest chain. -/
theorem exists_codeChain_iff {trees : List Tree} (fits : TreesFit named trees) {n : Nat} :
    (∃ chain, CodeChain trees chain ∧ chain.length = n) ↔ n ≤ treesDepth trees := by
  induction n generalizing trees with
  | zero =>
      constructor
      · intro _
        exact Nat.zero_le _
      · intro _
        exact ⟨[], trivial, rfl⟩
  | succ n ih =>
      rw [Nat.succ_le_iff, lt_treesDepth_iff]
      constructor
      · intro h
        obtain ⟨chain, nested, len⟩ := h
        cases chain with
        | nil => cases len
        | cons tree chain =>
            obtain ⟨member, body, nested⟩ := nested
            have fit := treesFit_iff.mp fits tree member
            have deep := (ih fit.inner).mp ⟨chain, nested, Nat.succ.inj len⟩
            exact ⟨tree, member, (Tree.lt_depth_iff fit).mpr ⟨body, deep⟩⟩
      · intro h
        obtain ⟨tree, member, deep⟩ := h
        have fit := treesFit_iff.mp fits tree member
        obtain ⟨body, deep⟩ := (Tree.lt_depth_iff fit).mp deep
        obtain ⟨chain, nested, len⟩ := (ih fit.inner).mpr deep
        exact ⟨tree :: chain, ⟨member, body, nested⟩, by rw [List.length_cons, len]⟩

theorem forall_codeChain_iff {trees : List Tree} (fits : TreesFit named trees) {n : Nat} :
    (∀ chain, CodeChain trees chain → chain.length ≤ n) ↔ treesDepth trees ≤ n := by
  constructor
  · intro chains
    obtain ⟨chain, nested, len⟩ := (exists_codeChain_iff fits).mpr (Nat.le_refl _)
    rw [← len]
    exact chains chain nested
  · intro shallow chain nested
    exact Nat.le_trans ((exists_codeChain_iff fits).mp ⟨chain, nested, rfl⟩) shallow

end Fits

/-- The state stands in front of bytes at offsets of four bytes, and the pool has
indexes for so many rows. -/
structure Payload.Ready (s : Payload) (bytes : List UInt8) (rows : Nat) : Prop where
  front : bytes <+: s.window.rest
  placed : s.window.offset + bytes.length < 2 ^ 32
  sound : s.pool.Sound
  room : s.pool.store.rowCount + rows ≤ 2 ^ 32

theorem Payload.Ready.exists_yields {α : Type} {s : Payload} {first second : List UInt8}
    {plant : Planter α} {m n : Nat} (ready : s.Ready (first ++ second) (m + n))
    (law : plant.Adds m) :
    ∃ a r, s.Yields first plant a r ∧ r.window.offset = s.window.offset + first.length ∧
      r.Ready second n := by
  obtain ⟨⟨tail, whole⟩, placed, sound, room⟩ := ready
  rw [List.append_assoc] at whole
  rw [List.length_append] at placed
  obtain ⟨window, consumes, rest⟩ := Window.exists_consumes whole.symm
  obtain ⟨a, pool, planted⟩ := law.exists_ok sound (by omega)
  obtain ⟨evolved, count⟩ := law.effect sound planted
  have moved : window.offset = s.window.offset + first.length := by
    rw [consumes.offset_eq, saturate_of_lt (by omega)]
  refine ⟨a, ⟨pool, window⟩, ⟨consumes, planted⟩, moved, ⟨tail, rest.symm⟩, ?_,
    evolved.sound sound, ?_⟩
  · rw [moved]
    omega
  · rw [count]
    omega

theorem Payload.Ready.left {s : Payload} {first second : List UInt8} {m n : Nat}
    (ready : s.Ready (first ++ second) (m + n)) : s.Ready first m := by
  obtain ⟨front, placed, sound, room⟩ := ready
  rw [List.length_append] at placed
  exact ⟨(List.prefix_append first second).trans front, by omega, sound, by omega⟩

section Stops

variable {constants : Constant.Pool} {levels place : Nat} {e : DecodingError}

theorem fails_readSized {column : Column String} {read : PayloadReader (Nat × Value String)}
    {s : Payload} (h : Fails e read s) : Fails e (readSized column read) s := by
  have start : position s = .ok s.window.position s := rfl
  exact .bind_of_ok start h.bind

theorem fails_readRecord {readCell : Column String → PayloadReader (Cell String)} {name : String}
    {bytes : List UInt8} {rows : Nat} {s : Payload} (ready : s.Ready bytes rows)
    (h : ∀ pool, Payload.Ready ⟨pool, s.window⟩ bytes rows →
      Fails e ((columnsOf name).mapM readCell) ⟨pool, s.window⟩) :
    Fails e (readRecord readCell name) s := by
  obtain ⟨_, pool, opened⟩ := (openTable_adds name).exists_ok ready.sound
    (Nat.le_trans (Nat.le_add_right _ rows) ready.room)
  obtain ⟨evolved, count⟩ := (openTable_adds name).effect ready.sound opened
  have first : onPool (Pool.openTable name) s = .ok () ⟨pool, s.window⟩ :=
    onPool_eq_ok.mpr ⟨opened, rfl⟩
  have room : pool.store.rowCount + rows ≤ 2 ^ 32 := by
    rw [count]
    exact ready.room
  have within := h pool ⟨ready.front, ready.placed, evolved.sound ready.sound, room⟩
  exact .bind_of_ok first within.bind

theorem fails_readPayload_of_record {readList : Nat → PayloadReader (List (Reference String))}
    {header : Header} {name : String} {window : Window} {pool : Pool}
    (named : constants.utf8 header.nameIndex.toNat = .ok name)
    (h : Fails e (readRecord (readCell readList) name) ⟨pool, window⟩) :
    Fails e (readPayload constants readList header window) pool := by
  obtain ⟨t, failed⟩ := h
  rw [readPayload_of_named named]
  refine Fails.bind ⟨t.pool, ?_⟩
  unfold Pool.onPayload
  rw [failed]

/-- A nested attribute fails to be read if its payload does. -/
theorem fails_readNested {readList : Nat → PayloadReader (List (Reference String))} {tree : Tree}
    {rows : Nat} {s : Payload} (bound : tree.payload.length < 2 ^ 32)
    (ready : s.Ready tree.encode rows)
    (h : ∀ (header : Header) (window : Window), header.nameIndex = tree.nameIndex →
      window.offset = s.window.offset + Header.size →
      Payload.Ready ⟨s.pool, window⟩ tree.payload rows →
      Fails e (readPayload constants readList header window) s.pool) :
    Fails e (readNested constants readList) s := by
  have len : (UInt32.ofNat tree.payload.length).toNat = tree.payload.length :=
    UInt32.toNat_ofNat_of_lt' bound
  rw [← Nat.zero_add rows, Tree.encode] at ready
  obtain ⟨_, r, passes, moved, behind⟩ := ready.exists_yields (.pure ())
  obtain ⟨-, pool⟩ := pure_eq_ok.mp passes.planted
  obtain ⟨tail, whole⟩ := behind.front
  obtain ⟨w, consumes, -⟩ := Window.exists_consumes whole.symm
  obtain ⟨window, run, rest, offset⟩ := Window.exists_split consumes
  have first : onWindow Header.read s = .ok ⟨tree.nameIndex, .ofNat tree.payload.length⟩ r :=
    (Payload.Yields.of_window Header.read_eq_ok).mpr (by dsimp only; rwa [len])
  have second : onWindow (Window.split tree.payload.length) r = .ok window ⟨r.pool, w⟩ :=
    onWindow_eq_ok.mpr ⟨run, rfl⟩
  rw [length_header] at moved
  refine .bind_of_ok first (.bind_of_ok (by rw [len]; exact second) ?_)
  have inner : Payload.Ready ⟨s.pool, window⟩ tree.payload rows := by
    refine ⟨rest ▸ List.prefix_rfl, ?_, pool ▸ behind.sound, pool ▸ behind.room⟩
    rw [offset]
    exact behind.placed
  obtain ⟨t, failed⟩ := h ⟨tree.nameIndex, .ofNat tree.payload.length⟩ window rfl
    (offset.trans moved) inner
  exact ⟨⟨t, w⟩, onPool_eq_error (s := ⟨r.pool, w⟩) (t := ⟨t, w⟩).mpr ⟨pool ▸ failed, rfl⟩⟩

/-- The first place of a list in two parts is in the second one only if there is
none in the first. -/
theorem head?_append_eq_some {α : Type} {first second : List α} {a : α}
    (h : (first ++ second).head? = some a) :
    first.head? = some a ∨ first = [] ∧ second.head? = some a := by
  cases first with
  | nil => exact .inr ⟨rfl, h⟩
  | cons => exact .inl h

mutual

theorem Field.fails_readCell : ∀ {field : Field} {levels : Nat} {column : Column String}
    {s : Payload}, field.type = column.type → field.Fits (Named constants) →
      s.Ready field.encode field.rows → (field.lists levels s.window.offset).head? = some place →
      Fails (.nestingTooDeep place maxNesting)
        (readCell (nestedList constants levels) column) s
  | .plain _, _, _, _, _, _, _, listed => by simp [Field.lists] at listed
  | .entries _ _, _, _, _, _, _, _, listed => by simp [Field.lists] at listed
  | .attributes trees, levels, column, s, type, fits, ready, listed => by
      have len : (UInt16.ofNat trees.length).toNat = trees.length :=
        UInt16.toNat_ofNat_of_lt' fits.1
      rw [← Nat.zero_add (Field.rows _), Field.encode] at ready
      obtain ⟨_, r, passes, moved, behind⟩ := ready.exists_yields (.pure ())
      have count : onWindow Window.short s = .ok (.ofNat trees.length) r :=
        short_eq_ok.mpr (by rwa [len])
      rw [length_digits] at moved
      rw [readCell_attributes type.symm]
      refine fails_readSized (.bind_of_ok count (.bind ?_))
      rw [len]
      cases levels with
      | zero =>
          simp only [Field.lists, List.head?_cons, Option.some.injEq] at listed
          rw [← listed, ← moved]
          exact ⟨r, rfl⟩
      | succ levels =>
          rw [Field.lists, ← moved] at listed
          exact fails_nestedList fits.2 behind listed

theorem fails_readFields : ∀ {fields : List Field} {levels : Nat} {columns : List (Column String)}
    {s : Payload}, FieldsFit (Named constants) fields (columns.map Column.type) →
      .raw ∉ (columns.map Column.type).dropLast →
      s.Ready (encodeFields fields) (fieldsRows fields) →
      (fieldsLists levels s.window.offset fields).head? = some place →
      Fails (.nestingTooDeep place maxNesting)
        (columns.mapM (readCell (nestedList constants levels))) s
  | [], _, _, _, _, _, _, listed => by simp [fieldsLists] at listed
  | _ :: _, _, [], _, fits, _, _, _ => fits.elim
  | field :: rest, levels, column :: columns, s, fits, rawLast, ready, listed => by
      obtain ⟨type, fit, fits⟩ := fits
      rw [List.mapM_cons]
      rcases head?_append_eq_some listed with here | ⟨none, later⟩
      · exact (Field.fails_readCell type fit ready.left here).bind
      · obtain ⟨cell, r, yields, moved, behind⟩ :=
          ready.exists_yields (Field.plant_adds s.window.offset column fit)
        have run : readCell (nestedList constants levels) column s = .ok cell r := by
          refine (readCell_eq_ok (nestedList_readsTrees constants levels)).mpr
            ⟨field, type, fit, Field.lists_eq_nil.mp none, yields, ?_⟩
          intro raw
          rw [List.map_cons, raw] at rawLast
          rw [eq_nil_of_raw_notMem_dropLast rawLast] at fits
          cases rest with
          | nil => simp [fieldsLists] at later
          | cons => exact fits.elim
        rw [← moved] at later
        exact .bind_of_ok run
          (fails_readFields fits (raw_notMem_dropLast_tail rawLast) behind later).bind

theorem Tree.fails_readPayload : ∀ {tree : Tree} {levels : Nat} {header : Header} {window : Window}
    {pool : Pool}, header.nameIndex = tree.nameIndex → tree.Fits (Named constants) →
      Payload.Ready ⟨pool, window⟩ tree.payload tree.rows →
      (tree.lists levels window.offset).head? = some place →
      Fails (.nestingTooDeep place maxNesting)
        (readPayload constants (nestedList constants levels) header window) pool
  | .node index name fields unread, levels, header, window, pool, same, fits, ready, listed => by
      obtain ⟨named, fits, -, -⟩ := fits
      have known : constants.utf8 header.nameIndex.toNat = .ok name := by
        rw [same]
        exact named
      refine fails_readPayload_of_record known (fails_readRecord ready fun pool ready => ?_)
      have rawLast := raw_notMem_dropLast name
      rw [← columnsOf_structure] at fits rawLast
      exact fails_readFields fits rawLast ready.left listed

/-- Reading a list stops at the first place where another one is too deep. -/
theorem fails_nestedList : ∀ {trees : List Tree} {levels : Nat} {s : Payload},
    TreesFit (Named constants) trees → s.Ready (encodeTrees trees) (treesRows trees) →
      (treesLists levels s.window.offset trees).head? = some place →
      Fails (.nestingTooDeep place maxNesting) (nestedList constants (levels + 1) trees.length) s
  | [], _, _, _, _, listed => by simp [treesLists] at listed
  | tree :: rest, levels, s, fits, ready, listed => by
      obtain ⟨fit, fits⟩ := fits
      rw [nestedList_succ, List.length_cons, collect_succ]
      rcases head?_append_eq_some listed with here | ⟨none, later⟩
      · refine Fails.bind (fails_readNested fit.length_payload ready.left ?_)
        intro header window same moved ready
        rw [← moved] at here
        exact Tree.fails_readPayload same fit ready here
      · rw [encodeTrees_cons] at ready
        obtain ⟨reference, r, yields, moved, behind⟩ :=
          ready.exists_yields (Tree.plant_adds (saturate (s.window.offset + Header.size)) fit)
        have run := (readNested_eq_ok (nestedList_readsTrees constants levels)).mpr
          ⟨tree, fit, Tree.lists_eq_nil.mp none, yields⟩
        rw [← moved] at later
        exact .bind_of_ok run (fails_nestedList fits behind later).bind

end

end Stops

section Sources

variable {source : Source} {constants : Constant.Pool} {place : Nat} (small : source.size < 2 ^ 32)

include small

theorem fails_readAttribute {tree : Tree} {s : Scan} (fits : tree.Fits (Named constants))
    (holds : source.Holds s.offset tree.encode) (sound : s.pool.Sound)
    (room : s.pool.store.rowCount + tree.rows ≤ 2 ^ 32)
    (listed : (tree.lists maxNesting (s.offset + Header.size)).head? = some place) :
    Fails (.nestingTooDeep place maxNesting) (readAttribute source constants) s := by
  have len : (UInt32.ofNat tree.payload.length).toNat = tree.payload.length :=
    UInt32.toNat_ofNat_of_lt' fits.length_payload
  have inside := holds.fits (.inr (by simp [Tree.encode, digits]))
  rw [length_encode, ← Nat.add_assoc] at inside
  rw [Tree.encode, Source.holds_append, length_header] at holds
  obtain ⟨front, behind⟩ := holds
  obtain ⟨window, rest, opened, run⟩ : ∃ window rest,
      source.window s.offset Header.size = .ok window ∧
        Header.read window = .ok (⟨tree.nameIndex, .ofNat tree.payload.length⟩, rest) :=
    readHeader_eq_ok.mpr (by rwa [len])
  obtain ⟨payload, found, whole, start, -⟩ := Source.exists_window behind inside
  have moved : saturate (s.offset + Header.size) = s.offset + Header.size :=
    saturate_of_lt (by omega)
  have failed : Fails (.nestingTooDeep place maxNesting)
      (readPayload constants (nestedList constants maxNesting)
        ⟨tree.nameIndex, .ofNat tree.payload.length⟩ payload) s.pool := by
    rw [moved] at start
    refine Tree.fails_readPayload rfl fits ⟨whole ▸ List.prefix_rfl, ?_, sound, room⟩ ?_
    · rw [start]
      omega
    · rwa [start]
  obtain ⟨pool, failed⟩ := failed
  rw [← moved, ← len] at found
  have here (s : Scan) : (ScanReader.currentOffset : ScanReader Nat) s = .ok s.offset s := rfl
  have moves (s : Scan) (n : Nat) : ScanReader.advance .plain source n s =
    .ok () ⟨s.pool, saturate (s.offset + n)⟩ := rfl
  rw [readAttribute_eq]
  refine .bind_of_ok (here s) (.bind_of_ok (ofExcept_eq_ok.mpr ⟨opened, rfl⟩) ?_)
  refine .bind_of_ok (ofExcept_eq_ok.mpr ⟨run, rfl⟩) ?_
  refine .bind_of_ok (moves s _) (.bind_of_ok (here _) ?_)
  refine .bind_of_ok (ofExcept_eq_ok.mpr ⟨found, rfl⟩) (.bind_of_ok (moves _ _) ?_)
  exact ⟨⟨pool, _⟩, ScanReader.onPool_eq_error.mpr ⟨failed, rfl⟩⟩

theorem fails_readAttributes {trees : List Tree} {s : Scan}
    (fits : TreesFit (Named constants) trees) (holds : source.Holds s.offset (encodeTrees trees)) (sound : s.pool.Sound)
    (room : s.pool.store.rowCount + treesRows trees ≤ 2 ^ 32)
    (listed : (treesLists maxNesting s.offset trees).head? = some place) :
    Fails (.nestingTooDeep place maxNesting) (readAttributes source constants trees.length) s := by
  induction trees generalizing s with
  | nil => simp [treesLists] at listed
  | cons tree rest ih =>
      obtain ⟨fit, fits⟩ := fits
      rw [encodeTrees_cons, Source.holds_append] at holds
      obtain ⟨holds, behind⟩ := holds
      rw [treesRows] at room
      change Fails _ (collect (rest.length + 1) (readAttribute source constants)) s
      rw [collect_succ]
      rcases head?_append_eq_some listed with here | ⟨none, later⟩
      · exact (fails_readAttribute small fit holds sound (by omega) here).bind
      · have law := Tree.plant_adds (saturate (s.offset + Header.size)) fit
        obtain ⟨reference, pool, planted⟩ := law.exists_ok sound (by omega)
        obtain ⟨evolved, count⟩ := law.effect sound planted
        have run : readAttribute source constants s =
            .ok reference ⟨pool, s.offset + tree.encode.length⟩ :=
          (readAttribute_eq_ok small).mpr
            ⟨tree, fit, Tree.lists_eq_nil.mp none, holds, rfl, planted⟩
        have room' : pool.store.rowCount + treesRows rest ≤ 2 ^ 32 := by
          rw [count]
          omega
        exact .bind_of_ok run (ih fits behind (evolved.sound sound) room' later).bind

/-- Trees that are not too deep are read if there are indexes for their rows, and
only then. -/
theorem exists_readAttributes_iff (s : Scan) {trees : List Tree}
    (fits : TreesFit (Named constants) trees) (holds : source.Holds s.offset (encodeTrees trees))
    (sound : s.pool.Sound) (depth : treesDepth trees ≤ maxNesting) :
    s.pool.store.rowCount + treesRows trees ≤ 2 ^ 32 ↔
      ∃ references t, readAttributes source constants trees.length s = .ok references t := by
  constructor
  · intro room
    obtain ⟨references, pool, run, -⟩ := exists_readAttributes small sound fits depth holds room
    exact ⟨references, _, run⟩
  · intro h
    obtain ⟨references, t, run⟩ := h
    exact (of_readAttributes_eq_ok small sound fits holds run).2

/-- Trees that are too deep are not read, and if not for want of indexes, then for
the first list that is. -/
theorem exists_place_of_deep (s : Scan) {trees : List Tree}
    (fits : TreesFit (Named constants) trees) (holds : source.Holds s.offset (encodeTrees trees))
    (sound : s.pool.Sound) (deep : maxNesting < treesDepth trees) :
    ∃ place e t, (treesLists maxNesting s.offset trees).head? = some place ∧
      readAttributes source constants trees.length s = .error e t ∧
      (s.pool.store.rowCount + treesRows trees ≤ 2 ^ 32 →
        e = .nestingTooDeep place maxNesting) := by
  have listed : treesLists maxNesting s.offset trees ≠ [] := by
    rw [Ne, treesLists_eq_nil, Nat.not_le]
    exact deep
  obtain ⟨place, others, listed⟩ := List.exists_cons_of_ne_nil listed
  have first : (treesLists maxNesting s.offset trees).head? = some place := by
    rw [listed, List.head?_cons]
  cases run : readAttributes source constants trees.length s with
  | ok references t =>
      have shallow := (of_readAttributes_eq_ok small sound fits holds run).1
      omega
  | error e t =>
      refine ⟨place, e, t, first, rfl, fun room => ?_⟩
      obtain ⟨t', failed⟩ := fails_readAttributes small fits holds sound room first
      cases run.symm.trans failed
      rfl

end Sources

/-- Attributes that are well formed are read exactly if no chain of method bodies
is longer than the limit. Otherwise reading stops behind the count of the first
list with the limit of others around it. With a counter of its own, every call
comes down so many levels at most, whatever is read, and leaves the counter as
it was. -/
theorem nesting_exact (constants : Constant.Pool) :
    (∀ (source : Source) (trees : List Tree) (pool : Pool) (offset : Nat),
      source.size < 2 ^ 32 → pool.Reachable → TreesFit (Named constants) trees →
      source.Holds offset (encodeTrees trees) →
        ((∀ chain, CodeChain trees chain → chain.length ≤ maxNesting) →
          (pool.store.rowCount + treesRows trees ≤ 2 ^ 32 ↔ ∃ references t,
            readAttributes source constants trees.length ⟨pool, offset⟩ = .ok references t)) ∧
        ∀ chain, CodeChain trees chain → maxNesting < chain.length →
          ∃ place e t, (treesLists maxNesting offset trees).head? = some place ∧
            readAttributes source constants trees.length ⟨pool, offset⟩ = .error e t ∧
            (pool.store.rowCount + treesRows trees ≤ 2 ^ 32 →
              e = .nestingTooDeep place maxNesting)) ∧
    ∀ (fuel depth : Nat), maxNesting ≤ depth + fuel →
      (∀ (source : Source) (count : Nat) (s : Scan),
        countedAttributes source constants fuel count ⟨s, depth⟩ =
          endAt depth (collect count (readAttributeWithin source constants (maxNesting - depth)) s)) ∧
      (∀ (count : Nat) (s : Payload),
        countedList constants fuel count ⟨s, depth⟩ =
          endAt depth (nestedList constants (maxNesting - depth) count s)) ∧
      ∀ (name : String) (s : Payload),
        countedSubRecord constants fuel name ⟨s, depth⟩ =
          endAt depth
            (readRecord (readCell (nestedList constants (maxNesting - depth))) name s) := by
  constructor
  · intro source trees pool offset small reachable fits holds
    constructor
    · intro chains
      have shallow := (forall_codeChain_iff fits).mp chains
      exact exists_readAttributes_iff small ⟨pool, offset⟩ fits holds reachable.sound shallow
    · intro chain nested long
      have deep := (exists_codeChain_iff fits).mp ⟨chain, nested, rfl⟩
      exact exists_place_of_deep small ⟨pool, offset⟩ fits holds reachable.sound
        (Nat.lt_of_lt_of_le long deep)
  · intro fuel depth enough
    refine ⟨fun source count => ?_, fun count => ?_, fun name => ?_⟩
    · have lists := Counted.mirrors_countedAttributes source constants enough count
      exact Counted.mirrors_counting.mp lists
    · exact Counted.mirrors_counting.mp (Counted.mirrors_countedList constants enough count)
    · have cells := (Counted.simulates depth).cell (Counted.mirrors_countedList constants enough)
      exact Counted.mirrors_counting.mp (Counted.mirrors_record cells name)

/-- Empty method bodies, so many of them around a last one. -/
def nestedCode : Nat → Tree
  | 0 => .node 1 "Code" [.plain (.short 0), .plain (.short 0), .plain (.bytes []),
      .entries .exceptionHandler [], .attributes []] []
  | n + 1 => .node 1 "Code" [.plain (.short 0), .plain (.short 0), .plain (.bytes []),
      .entries .exceptionHandler [], .attributes [nestedCode n]] []

def nestedSource (n : Nat) : Source := ⟨(encodeTrees [nestedCode n]).toArray⟩

theorem length_nestedCode (n : Nat) : (encodeTrees [nestedCode n]).length = 18 * (n + 1) := by
  induction n with
  | zero => rfl
  | succ n ih =>
      simp [encodeTrees, nestedCode, Tree.payload, encodeFields, Field.encode, Plain.encode,
        length_digits] at ih ⊢
      omega

theorem nestedCode_fits {n : Nat} (few : n < 100) :
    TreesFit (Named sampleConstants) [nestedCode n] := by
  have code : structureOf "Code" =
      [.uint16, .uint16, .byteArray, .entries .exceptionHandler, .attributes] := rfl
  have known : Named sampleConstants 1 "Code" := named_sampleConstants (by decide)
  induction n with
  | zero =>
      simp [nestedCode, TreesFit, Tree.Fits, FieldsFit, Field.Fits, Field.type, Plain.type,
        Plain.Fits, code, known, encodeFields, Field.encode, encodeTrees,
        Plain.encode, length_digits]
  | succ n ih =>
      have inner := ih (by omega)
      have len := length_nestedCode n
      simp [nestedCode, TreesFit, Tree.Fits, FieldsFit, Field.Fits, Field.type, Plain.type,
        Plain.Fits, code, known, encodeFields, Field.encode,
        Plain.encode, length_digits, len] at inner ⊢
      exact ⟨inner, by omega⟩

/-- Sixteen method bodies in each other are read, and seventeen are not. -/
theorem nesting_exact_nestedCode :
    (∃ references t, readAttributes (nestedSource 15) sampleConstants 1 ⟨{}, 0⟩ =
      .ok references t) ∧
    (∃ t, readAttributes (nestedSource 16) sampleConstants 1 ⟨{}, 0⟩ =
      .error (.nestingTooDeep 306 16) t) ∧
    countedAttributes (nestedSource 16) sampleConstants 16 1 ⟨⟨{}, 0⟩, 0⟩ =
      endAt 0 (readAttributes (nestedSource 16) sampleConstants 1 ⟨{}, 0⟩) := by
  obtain ⟨exact, counted⟩ := nesting_exact sampleConstants
  have fits (n : Nat) (few : n < 100) := nestedCode_fits few
  have small (n : Nat) (few : n < 100) : (nestedSource n).size < 2 ^ 32 := by
    rw [nestedSource, Source.size_toArray, length_nestedCode]
    omega
  refine ⟨?_, ?_, (counted 16 0 (by decide)).1 _ 1 _⟩
  · have shallow := (exact (nestedSource 15) [nestedCode 15] {} 0 (small 15 (by decide)) .empty
      (fits 15 (by decide)) List.prefix_rfl).1
    have depth : treesDepth [nestedCode 15] = maxNesting := by decide +kernel
    exact (shallow ((forall_codeChain_iff (fits 15 (by decide))).mpr depth.le)).mp
      (by decide +kernel)
  · have deep := (exact (nestedSource 16) [nestedCode 16] {} 0 (small 16 (by decide)) .empty
      (fits 16 (by decide)) List.prefix_rfl).2
    have depth : 17 ≤ treesDepth [nestedCode 16] := by decide +kernel
    obtain ⟨chain, nested, len⟩ := (exists_codeChain_iff (fits 16 (by decide))).mpr depth
    have long : maxNesting < chain.length := by
      rw [len]
      decide
    obtain ⟨place, e, t, listed, run, told⟩ := deep chain nested long
    have first : (treesLists maxNesting 0 [nestedCode 16]).head? = some 306 := by decide +kernel
    cases listed.symm.trans first
    cases told (by decide +kernel)
    exact ⟨t, run⟩

end ClassFormat.Attribute
