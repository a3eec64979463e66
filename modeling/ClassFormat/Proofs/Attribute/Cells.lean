import ClassFormat.Proofs.Attribute.Planting
import ClassFormat.Proofs.Attribute.Tables
import ClassFormat.Proofs.Bytes.Window

/-!
# What reading cells succeeds on

`s.Yields bytes plant a t` is the form of all laws of payloads: the window moves
over `bytes`, and the pool changes as in planting, which gives `a`. Cells of
numbers and bytes are read off their written forms, and so are the entries of
attributes, which consist of such cells.
-/
namespace ClassFormat.Attribute

open BigEndian PayloadReader

namespace PayloadReader

variable {α : Type} {s t : Payload} {a : α} {e : DecodingError}

theorem onWindow_eq_ok {read : WindowReader α} :
    onWindow read s = .ok a t ↔ read s.window = .ok (a, t.window) ∧ t.pool = s.pool := by
  obtain ⟨pool, window⟩ := s
  obtain ⟨pool', window'⟩ := t
  unfold onWindow
  constructor
  · intro h
    dsimp only at h
    split at h
    next run =>
      cases h
      exact ⟨run, rfl⟩
    next => cases h
  · intro h
    obtain ⟨run, rfl⟩ := h
    dsimp only at run ⊢
    rw [run]

theorem onPool_eq_ok {act : EStateM DecodingError Pool α} :
    onPool act s = .ok a t ↔ act s.pool = .ok a t.pool ∧ t.window = s.window := by
  obtain ⟨pool, window⟩ := s
  obtain ⟨pool', window'⟩ := t
  unfold onPool
  constructor
  · intro h
    dsimp only at h
    split at h
    next run =>
      cases h
      exact ⟨run, rfl⟩
    next => cases h
  · intro h
    obtain ⟨run, rfl⟩ := h
    dsimp only at run ⊢
    rw [run]

theorem onPool_eq_error {act : EStateM DecodingError Pool α} :
    onPool act s = .error e t ↔ act s.pool = .error e t.pool ∧ t.window = s.window := by
  obtain ⟨pool, window⟩ := s
  obtain ⟨pool', window'⟩ := t
  unfold onPool
  dsimp only
  cases act pool with
  | error e' r =>
      simp only [EStateM.Result.error.injEq, Payload.mk.injEq, and_assoc, eq_comm (a := window)]
  | ok a r =>
      constructor
      · intro h
        cases h
      · intro h
        cases h.1

theorem position_eq_ok {n : Nat} : position s = .ok n t ↔ n = s.window.position ∧ s = t := by
  change EStateM.Result.ok s.window.position s = .ok n t ↔ _
  rw [EStateM.Result.ok.injEq, eq_comm]

end PayloadReader

/-- Between two states, the window moves over `bytes` and the pool changes as
`plant` says, with the result `a`. -/
structure Payload.Yields {α : Type} (s : Payload) (bytes : List UInt8) (plant : Planter α) (a : α)
    (t : Payload) : Prop where
  consumes : s.window.Consumes bytes t.window
  planted : plant s.pool = .ok a t.pool

/-- The window moves over `bytes`, and the pool stays. -/
abbrev Payload.Passes (s : Payload) (bytes : List UInt8) (t : Payload) : Prop :=
  s.Yields bytes (pure ()) () t

namespace Payload.Yields

variable {α β : Type} {s t : Payload} {a : α} {c : β} {bytes first second : List UInt8}

theorem nil_iff : s.Passes [] t ↔ s = t := by
  obtain ⟨pool, window⟩ := s
  obtain ⟨pool', window'⟩ := t
  constructor
  · intro h
    have windows := Window.Consumes.nil_iff.mp h.consumes
    have pools := (pure_eq_ok.mp h.planted).2
    dsimp only at pools windows
    rw [pools, windows]
  · intro h
    cases h
    exact ⟨Window.Consumes.nil_iff.mpr rfl, rfl⟩

theorem bind_iff {plant : Planter α} {next : α → Planter β} :
    s.Yields (first ++ second) (plant >>= next) c t ↔
      ∃ a r, s.Yields first plant a r ∧ r.Yields second (next a) c t := by
  constructor
  · intro h
    obtain ⟨v, head, tail⟩ := Window.Consumes.append_iff.mp h.consumes
    obtain ⟨a, pool, planted, rest⟩ := bind_eq_ok.mp h.planted
    exact ⟨a, ⟨pool, v⟩, ⟨head, planted⟩, ⟨tail, rest⟩⟩
  · intro h
    obtain ⟨a, r, head, tail⟩ := h
    exact ⟨head.consumes.append tail.consumes,
      bind_eq_ok.mpr ⟨a, r.pool, head.planted, tail.planted⟩⟩

theorem pass_iff {plant : Planter α} :
    s.Yields (first ++ second) plant a t ↔ ∃ r, s.Passes first r ∧ r.Yields second plant a t := by
  have h : s.Yields (first ++ second) (pure () >>= fun _ => plant) a t ↔ _ := bind_iff
  rw [pure_bind] at h
  rw [h]
  constructor
  · intro h
    obtain ⟨_, r, head, tail⟩ := h
    exact ⟨r, head, tail⟩
  · intro h
    obtain ⟨r, head, tail⟩ := h
    exact ⟨(), r, head, tail⟩

theorem map_iff {plant : Planter α} {f : α → β} :
    s.Yields bytes (do return f (← plant)) c t ↔ ∃ a, s.Yields bytes plant a t ∧ c = f a := by
  constructor
  · intro h
    obtain ⟨a, pool, planted, rest⟩ := bind_eq_ok.mp h.planted
    obtain ⟨rfl, rfl⟩ := pure_eq_ok.mp rest
    exact ⟨a, ⟨h.consumes, planted⟩, rfl⟩
  · intro h
    obtain ⟨a, h, rfl⟩ := h
    exact ⟨h.consumes, bind_eq_ok.mpr ⟨a, t.pool, h.planted, rfl⟩⟩

theorem pure_iff {b : α} : s.Yields bytes (pure a) b t ↔ b = a ∧ s.Passes bytes t := by
  constructor
  · intro h
    obtain ⟨rfl, pools⟩ := pure_eq_ok.mp h.planted
    exact ⟨rfl, h.consumes, pure_eq_ok.mpr ⟨rfl, pools⟩⟩
  · intro h
    obtain ⟨rfl, passes⟩ := h
    exact ⟨passes.consumes, pure_eq_ok.mpr ⟨rfl, (pure_eq_ok.mp passes.planted).2⟩⟩

theorem of_window {read : WindowReader α}
    (law : read s.window = .ok (a, t.window) ↔ s.window.Consumes bytes t.window) :
    onWindow read s = .ok a t ↔ s.Passes bytes t := by
  rw [onWindow_eq_ok, law]
  constructor
  · intro h
    exact ⟨h.1, pure_eq_ok.mpr ⟨rfl, h.2.symm⟩⟩
  · intro h
    exact ⟨h.consumes, (pure_eq_ok.mp h.planted).2.symm⟩

end Payload.Yields

section Plain

variable {s t : Payload}

theorem byte_eq_ok {n : UInt8} : onWindow Window.byte s = .ok n t ↔ s.Passes [n] t :=
  Payload.Yields.of_window Window.byte_eq_ok

theorem short_eq_ok {n : UInt16} :
    onWindow Window.short s = .ok n t ↔ s.Passes (digits 2 n.toNat) t :=
  Payload.Yields.of_window Window.short_eq_ok

theorem word_eq_ok {n : UInt32} :
    onWindow Window.word s = .ok n t ↔ s.Passes (digits 4 n.toNat) t :=
  Payload.Yields.of_window Window.word_eq_ok

theorem take_eq_ok {n : Nat} {bytes : List UInt8} :
    onWindow (Window.take n) s = .ok bytes t ↔ bytes.length = n ∧ s.Passes bytes t := by
  constructor
  · intro h
    obtain ⟨run, pool⟩ := onWindow_eq_ok.mp h
    obtain ⟨len, consumes⟩ := Window.take_eq_ok.mp run
    exact ⟨len, consumes, pure_eq_ok.mpr ⟨rfl, pool.symm⟩⟩
  · intro h
    obtain ⟨len, passes⟩ := h
    refine onWindow_eq_ok.mpr ⟨Window.take_eq_ok.mpr ⟨len, passes.consumes⟩, ?_⟩
    exact (pure_eq_ok.mp passes.planted).2.symm

theorem takeRest_eq_ok {bytes : List UInt8} :
    onWindow Window.takeRest s = .ok bytes t ↔ s.Passes bytes t ∧ t.window.rest = [] := by
  constructor
  · intro h
    obtain ⟨run, pool⟩ := onWindow_eq_ok.mp h
    obtain ⟨consumes, rest⟩ := Window.takeRest_eq_ok.mp run
    exact ⟨⟨consumes, pure_eq_ok.mpr ⟨rfl, pool.symm⟩⟩, rest⟩
  · intro h
    obtain ⟨passes, rest⟩ := h
    refine onWindow_eq_ok.mpr ⟨Window.takeRest_eq_ok.mpr ⟨passes.consumes, rest⟩, ?_⟩
    exact (pure_eq_ok.mp passes.planted).2.symm

theorem collect_short_eq_ok {count : Nat} {numbers : List UInt16} :
    collect count (onWindow Window.short) s = .ok numbers t ↔
      numbers.length = count ∧ s.Passes (numbers.flatMap fun n => digits 2 n.toNat) t := by
  induction count generalizing s numbers with
  | zero =>
      rw [collect_zero_eq_ok, List.length_eq_zero_iff]
      constructor
      · intro h
        obtain ⟨rfl, rfl⟩ := h
        exact ⟨rfl, Payload.Yields.nil_iff.mpr rfl⟩
      · intro h
        obtain ⟨rfl, passes⟩ := h
        exact ⟨rfl, Payload.Yields.nil_iff.mp passes⟩
  | succ count ih =>
      rw [collect_succ_eq_ok]
      constructor
      · intro h
        obtain ⟨n, r, rest, first, others, rfl⟩ := h
        obtain ⟨len, passes⟩ := ih.mp others
        refine ⟨by rw [List.length_cons, len], ?_⟩
        exact Payload.Yields.pass_iff.mpr ⟨r, short_eq_ok.mp first, passes⟩
      · intro h
        obtain ⟨len, passes⟩ := h
        cases numbers with
        | nil => cases len
        | cons n rest =>
            obtain ⟨r, first, others⟩ := Payload.Yields.pass_iff.mp passes
            exact ⟨n, r, rest, short_eq_ok.mpr first, ih.mpr ⟨Nat.succ.inj len, others⟩, rfl⟩

theorem exists_plain {type : ColumnType} {read : PayloadReader (Nat × Value String)}
    {result : Nat × Value String} (h : readPlain type = some read) (run : read s = .ok result t) :
    ∃ field : Plain, field.type = type ∧ field.Fits ∧ result = (field.number, field.value) ∧
      s.Passes field.encode t ∧ (type = .raw → t.window.rest = []) := by
  cases type <;> cases h
  case byte =>
    obtain ⟨n, r, first, done⟩ := bind_eq_ok.mp run
    obtain ⟨rfl, rfl⟩ := pure_eq_ok.mp done
    exact ⟨.byte n, rfl, trivial, rfl, byte_eq_ok.mp first, fun raw => by cases raw⟩
  case uint16 =>
    obtain ⟨n, r, first, done⟩ := bind_eq_ok.mp run
    obtain ⟨rfl, rfl⟩ := pure_eq_ok.mp done
    exact ⟨.short n, rfl, trivial, rfl, short_eq_ok.mp first, fun raw => by cases raw⟩
  case uint32 =>
    obtain ⟨n, r, first, done⟩ := bind_eq_ok.mp run
    obtain ⟨rfl, rfl⟩ := pure_eq_ok.mp done
    exact ⟨.word n, rfl, trivial, rfl, word_eq_ok.mp first, fun raw => by cases raw⟩
  case byteArray =>
    obtain ⟨length, r, first, run⟩ := bind_eq_ok.mp run
    obtain ⟨list, r', second, done⟩ := bind_eq_ok.mp run
    obtain ⟨rfl, rfl⟩ := pure_eq_ok.mp done
    obtain ⟨len, passes⟩ := take_eq_ok.mp second
    have fits : (Plain.bytes list).Fits := by
      rw [Plain.Fits, len]
      exact length.toNat_lt
    refine ⟨.bytes list, rfl, fits, by rw [Plain.number, len]; rfl, ?_, fun raw => by cases raw⟩
    rw [Plain.encode, len]
    exact Payload.Yields.pass_iff.mpr ⟨r, word_eq_ok.mp first, passes⟩
  case shortArray =>
    obtain ⟨count, r, first, run⟩ := bind_eq_ok.mp run
    obtain ⟨numbers, r', second, done⟩ := bind_eq_ok.mp run
    obtain ⟨rfl, rfl⟩ := pure_eq_ok.mp done
    obtain ⟨len, passes⟩ := collect_short_eq_ok.mp second
    have fits : (Plain.shorts numbers).Fits := by
      rw [Plain.Fits, len]
      exact count.toNat_lt
    refine ⟨.shorts numbers, rfl, fits, by rw [Plain.number, len]; rfl, ?_, fun raw => by cases raw⟩
    rw [Plain.encode, len]
    exact Payload.Yields.pass_iff.mpr ⟨r, short_eq_ok.mp first, passes⟩
  case raw =>
    obtain ⟨list, r, first, done⟩ := bind_eq_ok.mp run
    obtain ⟨rfl, rfl⟩ := pure_eq_ok.mp done
    obtain ⟨passes, rest⟩ := takeRest_eq_ok.mp first
    exact ⟨.raw list, rfl, trivial, rfl, passes, fun _ => rest⟩

theorem read_plain {field : Plain} {read : PayloadReader (Nat × Value String)}
    (h : readPlain field.type = some read) (fits : field.Fits) (passes : s.Passes field.encode t)
    (rest : field.type = .raw → t.window.rest = []) :
    read s = .ok (field.number, field.value) t := by
  cases field <;> cases h
  case byte n => exact bind_eq_ok.mpr ⟨n, t, byte_eq_ok.mpr passes, rfl⟩
  case short n => exact bind_eq_ok.mpr ⟨n, t, short_eq_ok.mpr passes, rfl⟩
  case word n => exact bind_eq_ok.mpr ⟨n, t, word_eq_ok.mpr passes, rfl⟩
  case bytes list =>
    obtain ⟨r, first, second⟩ := Payload.Yields.pass_iff.mp passes
    have len : (UInt32.ofNat list.length).toNat = list.length := UInt32.toNat_ofNat_of_lt' fits
    rw [← len] at first
    refine bind_eq_ok.mpr ⟨UInt32.ofNat list.length, r, word_eq_ok.mpr first, ?_⟩
    refine bind_eq_ok.mpr ⟨list, t, take_eq_ok.mpr ⟨len.symm, second⟩, ?_⟩
    rw [len]
    rfl
  case shorts numbers =>
    obtain ⟨r, first, second⟩ := Payload.Yields.pass_iff.mp passes
    have len : (UInt16.ofNat numbers.length).toNat = numbers.length :=
      UInt16.toNat_ofNat_of_lt' fits
    rw [← len] at first
    refine bind_eq_ok.mpr ⟨UInt16.ofNat numbers.length, r, short_eq_ok.mpr first, ?_⟩
    refine bind_eq_ok.mpr ⟨numbers, t, collect_short_eq_ok.mpr ⟨len.symm, second⟩, ?_⟩
    rw [len]
    rfl
  case raw list => exact bind_eq_ok.mpr ⟨list, t, takeRest_eq_ok.mpr ⟨passes, rest rfl⟩, rfl⟩

/-- The size of a cell is the number of bytes that were passed. -/
theorem readSized_eq_ok {column : Column String} {read : PayloadReader (Nat × Value String)}
    {cell : Cell String} :
    readSized column read s = .ok cell t ↔
      ∃ result, read s = .ok result t ∧ result.2.shape = column.type.shape ∧
        cell = ⟨column, result.1, t.window.position - s.window.position, result.2⟩ := by
  constructor
  · intro h
    obtain ⟨_, _, first, h⟩ := bind_eq_ok.mp h
    obtain ⟨rfl, rfl⟩ := position_eq_ok.mp first
    obtain ⟨result, r, run, h⟩ := bind_eq_ok.mp h
    obtain ⟨_, _, last, h⟩ := bind_eq_ok.mp h
    obtain ⟨rfl, rfl⟩ := position_eq_ok.mp last
    obtain ⟨made, rfl⟩ := Reads.check_eq_ok.mp h
    exact ⟨result, run, Cell.make_eq_ok.mp made⟩
  · intro h
    obtain ⟨result, run, made⟩ := h
    refine bind_eq_ok.mpr ⟨_, s, position_eq_ok.mpr ⟨rfl, rfl⟩, ?_⟩
    refine bind_eq_ok.mpr ⟨result, t, run, ?_⟩
    refine bind_eq_ok.mpr ⟨_, t, position_eq_ok.mpr ⟨rfl, rfl⟩, ?_⟩
    exact Reads.check_eq_ok.mpr ⟨Cell.make_eq_ok.mpr made, rfl⟩

theorem Plain.shape_value (field : Plain) : field.value.shape = field.type.shape := by
  cases field <;> rfl

theorem exists_readPlain (field : Plain) : ∃ read, readPlain field.type = some read := by
  cases field <;> exact ⟨_, rfl⟩

/-- A cell of numbers or bytes is read off a field of its type. -/
theorem readPlainCell_eq_ok {column : Column String} {cell : Cell String} :
    readPlainCell column s = .ok cell t ↔
      ∃ field : Plain, field.type = column.type ∧ field.Fits ∧ cell = field.cell column ∧
        s.Passes field.encode t ∧ (column.type = .raw → t.window.rest = []) := by
  constructor
  · intro h
    cases known : readPlain column.type with
    | none =>
        rw [readPlainCell_of_none known] at h
        exact (throw_ne_ok h).elim
    | some read =>
        rw [readPlainCell_of_some known] at h
        obtain ⟨result, run, -, rfl⟩ := readSized_eq_ok.mp h
        obtain ⟨field, type, fits, rfl, passes, rest⟩ := exists_plain known run
        refine ⟨field, type, fits, ?_, passes, rest⟩
        rw [Plain.cell, passes.consumes.position_eq, Nat.add_sub_cancel_left]
  · intro h
    obtain ⟨field, type, fits, rfl, passes, rest⟩ := h
    obtain ⟨read, known⟩ := exists_readPlain field
    rw [readPlainCell_of_some (type ▸ known)]
    refine readSized_eq_ok.mpr ⟨_, read_plain known fits passes (by rwa [type]), ?_, ?_⟩
    · rw [← type, field.shape_value]
    · rw [Plain.cell, passes.consumes.position_eq, Nat.add_sub_cancel_left]

end Plain

theorem map_type_columnsOf (name : String) : (columnsOf name).map Column.type = typesOf name := by
  apply List.ext_getElem <;> simp [columnsOf, Layout.columns, typesOf, Layout.types]

theorem columnsOf_structure (name : String) :
    (columnsOf name).map Column.type = structureOf name := by
  rw [map_type_columnsOf, structureOf_eq]

theorem layoutOf_tableName (entry : Entry) : layoutOf entry.tableName = entry.layout := by
  cases entry <;> rfl

theorem map_type_columnsOf_tableName (entry : Entry) :
    (columnsOf entry.tableName).map Column.type = fieldsOf entry := by
  rw [map_type_columnsOf, typesOf, layoutOf_tableName, fieldsOf_eq]

theorem raw_notMem_fieldsOf (entry : Entry) : .raw ∉ fieldsOf entry := by
  cases entry <;> decide

/-- Behind a column for all bytes there is no other. -/
theorem raw_notMem_dropLast (name : String) : .raw ∉ (structureOf name).dropLast := by
  rw [structureOf_eq]
  unfold typesOf layoutOf
  cases Kind.ofName? name with
  | none => decide
  | some kind =>
      cases kind with
      | ofEntry entry =>
          have none := fieldsOf_eq entry ▸ raw_notMem_fieldsOf entry
          exact fun h => none (List.dropLast_subset _ h)
      | _ => decide

theorem raw_notMem_dropLast_tail {type : ColumnType} {types : List ColumnType}
    (h : .raw ∉ (type :: types).dropLast) : .raw ∉ types.dropLast := by
  intro later
  cases types with
  | nil => cases later
  | cons => exact h (List.mem_cons_of_mem _ later)

theorem eq_nil_of_raw_notMem_dropLast {types : List ColumnType}
    (h : .raw ∉ (.raw :: types).dropLast) : types = [] := by
  cases types with
  | nil => rfl
  | cons => exact absurd List.mem_cons_self h

section Records

variable {s t : Payload}

theorem mapM_readPlainCell_eq_ok {columns : List (Column String)} {cells : List (Cell String)}
    (structured : .raw ∉ columns.map Column.type) :
    columns.mapM readPlainCell s = .ok cells t ↔
      ∃ record : Record, record.map Plain.type = columns.map Column.type ∧
        (∀ field ∈ record, field.Fits) ∧ cells = record.cells columns ∧
        s.Passes record.encode t := by
  induction columns generalizing s cells with
  | nil =>
      rw [mapM_nil_eq_ok]
      constructor
      · intro h
        obtain ⟨rfl, rfl⟩ := h
        exact ⟨[], rfl, nofun, rfl, Payload.Yields.nil_iff.mpr rfl⟩
      · intro h
        obtain ⟨record, types, -, rfl, passes⟩ := h
        cases List.map_eq_nil_iff.mp types
        exact ⟨rfl, Payload.Yields.nil_iff.mp passes⟩
  | cons column columns ih =>
      rw [List.map_cons, List.mem_cons, not_or] at structured
      rw [mapM_cons_eq_ok]
      constructor
      · intro h
        obtain ⟨cell, r, rest, first, others, rfl⟩ := h
        obtain ⟨field, type, fits, rfl, passes, -⟩ := readPlainCell_eq_ok.mp first
        obtain ⟨record, types, allFit, rfl, passes'⟩ := (ih structured.2).mp others
        refine ⟨field :: record, by rw [List.map_cons, List.map_cons, type, types], ?_, rfl, ?_⟩
        · exact List.forall_mem_cons.mpr ⟨fits, allFit⟩
        · exact Payload.Yields.pass_iff.mpr ⟨r, passes, passes'⟩
      · intro h
        obtain ⟨record, types, fits, rfl, passes⟩ := h
        cases record with
        | nil => cases types
        | cons field record =>
            rw [List.map_cons, List.map_cons, List.cons.injEq] at types
            obtain ⟨r, first, others⟩ := Payload.Yields.pass_iff.mp passes
            obtain ⟨fit, fits⟩ := List.forall_mem_cons.mp fits
            refine ⟨field.cell column, r, Record.cells record columns, ?_, ?_, rfl⟩
            · exact readPlainCell_eq_ok.mpr ⟨field, types.1, fit, rfl, first,
                fun raw => (structured.1 raw.symm).elim⟩
            · exact (ih structured.2).mpr ⟨record, types.2, fits, rfl, others⟩

/-- A record is registered when its cells were read, whatever they are read
off. -/
theorem readRecord_eq_ok {X : Type} {readCell : Column String → PayloadReader (Cell String)}
    {name : String} (good : X → Window → Prop) {bytes : X → List UInt8}
    (cellsOf : X → Nat → Planter (List (Cell String)))
    (law : ∀ {s cells t}, (columnsOf name).mapM readCell s = .ok cells t ↔
      ∃ x, good x t.window ∧ s.Yields (bytes x) (cellsOf x s.window.offset) cells t)
    {reference : Reference String} :
    readRecord readCell name s = .ok reference t ↔
      ∃ x, good x t.window ∧
        s.Yields (bytes x) (plantRow name (cellsOf x s.window.offset)) reference t := by
  rw [readRecord_eq]
  unfold plantRow
  constructor
  · intro h
    obtain ⟨_, r, opened, h⟩ := bind_eq_ok.mp h
    obtain ⟨opened, window⟩ := onPool_eq_ok.mp opened
    obtain ⟨cells, u, run, added⟩ := bind_eq_ok.mp h
    obtain ⟨x, fine, consumes, planted⟩ := law.mp run
    obtain ⟨added, window'⟩ := onPool_eq_ok.mp added
    rw [← window'] at fine consumes
    rw [window] at consumes planted
    exact ⟨x, fine, consumes,
      bind_eq_ok.mpr ⟨(), r.pool, opened, bind_eq_ok.mpr ⟨cells, u.pool, planted, added⟩⟩⟩
  · intro h
    obtain ⟨x, fine, consumes, planted⟩ := h
    obtain ⟨_, pool, opened, planted⟩ := bind_eq_ok.mp planted
    obtain ⟨cells, pool', planted, added⟩ := bind_eq_ok.mp planted
    refine bind_eq_ok.mpr ⟨(), ⟨pool, s.window⟩, onPool_eq_ok.mpr ⟨opened, rfl⟩, ?_⟩
    refine bind_eq_ok.mpr ⟨cells, ⟨pool', t.window⟩, ?_, onPool_eq_ok.mpr ⟨added, rfl⟩⟩
    exact law.mpr ⟨x, fine, consumes, planted⟩

theorem readEntry_eq_ok {entry : Entry} {reference : Reference String} :
    readRecord readPlainCell entry.tableName s = .ok reference t ↔
      ∃ record : Record, record.Fits (fieldsOf entry) ∧
        s.Yields record.encode (record.plant entry) reference t := by
  refine readRecord_eq_ok (fun (record : Record) _ => record.Fits (fieldsOf entry))
    (fun record _ => pure (record.cells (columnsOf entry.tableName))) ?_
  intro s cells t
  have types := map_type_columnsOf_tableName entry
  rw [mapM_readPlainCell_eq_ok (types ▸ raw_notMem_fieldsOf entry)]
  refine exists_congr fun record => ?_
  rw [types, Payload.Yields.pure_iff]
  exact and_assoc.symm

theorem collect_readEntry_eq_ok {entry : Entry} {count : Nat}
    {references : List (Reference String)} :
    collect count (readRecord readPlainCell entry.tableName) s = .ok references t ↔
      ∃ records : List Record, records.length = count ∧
        (∀ record ∈ records, record.Fits (fieldsOf entry)) ∧
        s.Yields (records.flatMap Record.encode) (records.mapM (Record.plant entry)) references
          t := by
  induction count generalizing s references with
  | zero =>
      rw [collect_zero_eq_ok]
      constructor
      · intro h
        obtain ⟨rfl, rfl⟩ := h
        refine ⟨[], rfl, nofun, ?_⟩
        exact Payload.Yields.pure_iff.mpr ⟨rfl, Payload.Yields.nil_iff.mpr rfl⟩
      · intro h
        obtain ⟨records, len, -, yields⟩ := h
        cases List.length_eq_zero_iff.mp len
        obtain ⟨rfl, passes⟩ := Payload.Yields.pure_iff.mp yields
        exact ⟨rfl, Payload.Yields.nil_iff.mp passes⟩
  | succ count ih =>
      rw [collect_succ_eq_ok]
      constructor
      · intro h
        obtain ⟨reference, r, rest, first, others, rfl⟩ := h
        obtain ⟨record, fits, yields⟩ := readEntry_eq_ok.mp first
        obtain ⟨records, len, allFit, yields'⟩ := ih.mp others
        refine ⟨record :: records, by rw [List.length_cons, len],
          List.forall_mem_cons.mpr ⟨fits, allFit⟩, ?_⟩
        rw [List.flatMap_cons, List.mapM_cons]
        refine Payload.Yields.bind_iff.mpr ⟨reference, r, yields, ?_⟩
        exact Payload.Yields.map_iff.mpr ⟨rest, yields', rfl⟩
      · intro h
        obtain ⟨records, len, fits, yields⟩ := h
        cases records with
        | nil => cases len
        | cons record records =>
            obtain ⟨fit, fits⟩ := List.forall_mem_cons.mp fits
            rw [List.flatMap_cons, List.mapM_cons] at yields
            obtain ⟨reference, r, first, others⟩ := Payload.Yields.bind_iff.mp yields
            obtain ⟨rest, tail, rfl⟩ := Payload.Yields.map_iff.mp others
            exact ⟨reference, r, rest, readEntry_eq_ok.mpr ⟨record, fit, first⟩,
              ih.mpr ⟨records, Nat.succ.inj len, fits, tail⟩, rfl⟩

end Records

end ClassFormat.Attribute
