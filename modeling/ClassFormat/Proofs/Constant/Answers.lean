import ClassFormat.Proofs.Constant.Slots
import ClassFormat.Proofs.Table.Shape

/-!
# What the accessors of constants answer

For each kind, its accessors by name with what they answer on the values of a row.
Every row of a pool that was read has a value of the right shape in each of the
columns of its kind, which are those that the accessors of the kind read. So they
answer on it, but for a method handle whose kind is not one of the nine.
-/
namespace ClassFormat.Constant

/-- What holds of every result and its argument holds of the lists of them. -/
theorem forall₂_of_mapM_eq_ok {ε σ α β : Type} (R : β → α → Prop) {f : β → EStateM ε σ α}
    (each : ∀ {b s a t}, f b s = .ok a t → R b a) {bs : List β} {results : List α} {s t : σ}
    (h : bs.mapM f s = .ok results t) : List.Forall₂ R bs results := by
  induction bs generalizing results s with
  | nil =>
    rw [(mapM_nil_eq_ok.mp h).1]
    exact .nil
  | cons b bs ih =>
    obtain ⟨a, r, rest, ha, hrest, rfl⟩ := mapM_cons_eq_ok.mp h
    exact .cons (each ha) (ih hrest)

namespace Pool

variable {source : Source} {count : Nat}

/-- The values of the row are of the shapes that its kind has columns for. -/
abbrev KindedRow (row : Row Tag) : Prop := row.Kinded row.table.columns

theorem shape_of_cellAt {column : Column Tag} {offset : Nat} {cell : Cell Tag}
    (read : cellAt source column offset = .ok cell) : cell.value.shape = column.type.shape := by
  obtain ⟨⟨raw, value, size⟩, found, same⟩ := Except.bind_eq_ok.mp read
  cases same
  exact shape_of_valueAt found

theorem shape_of_readCell {column : Column Tag} {s t : Progress} {cell : Cell Tag}
    (run : readCell source column s = .ok cell t) : cell.value.shape = column.type.shape := by
  rw [readCell_eq] at run
  obtain ⟨_, _, -, run⟩ := bind_eq_ok.mp run
  obtain ⟨_, _, read, run⟩ := bind_eq_ok.mp run
  obtain ⟨_, _, -, run⟩ := bind_eq_ok.mp run
  obtain ⟨rfl, -⟩ := pure_eq_ok.mp run
  exact shape_of_cellAt (ofExcept_eq_ok.mp read).1

theorem lists_emptyStore {P : Row Tag → Prop} : emptyStore.Lists P := by
  have filled (tags : List Tag) (store : Store Tag) (h : store.Lists P) :
      (tags.foldl (fun store tag => store.ensureTable tag tag.columns) store).Lists P := by
    induction tags generalizing store with
    | nil => exact h
    | cons tag tags ih => exact ih _ (h.ensureTable tag tag.columns)
  exact filled Tag.all {} fun table member => (Array.not_mem_empty _ member).elim

/-- What every row keeps that is registered with cells that were read holds of the
store in the end. -/
theorem kept_of_readEntries {P : Store Tag → Prop}
    (step : ∀ {tag : Tag} {cells : List (Cell Tag)} {before behind : Progress} {slot : Nat}
      {store later : Store Tag}, tag.columns.mapM (readCell source) before = .ok cells behind →
        Store.addRowAt slot ⟨tag, slot, cells⟩ store = .ok () later → P store → P later)
    {left : Nat} :
    ∀ {slot : Nat} {s t : Progress}, Stocked s.store → readEntries source slot left s = .ok () t →
      P s.store → P t.store := by
  -- Wide entries use up two slots, so the recursion is on all smaller numbers of slots.
  induction left using Nat.strongRecOn with
  | ind left ih =>
      intro slot s t stocked run h
      cases left with
      | zero =>
          obtain ⟨-, rfl⟩ := pure_eq_ok.mp run
          exact h
      | succ left =>
          rw [readEntries_succ] at run
          obtain ⟨tag, r, first, others⟩ := bind_eq_ok.mp run
          have wide := width_pos tag
          obtain ⟨cells, _, _, read, added⟩ := exists_addRowAt_of_readEntry stocked first
          exact ih _ (by omega) (stocked.of_addRowAt added) others (step read added h)

/-- What holds of a column and a cell that is read for it holds in every row. -/
theorem forall₂_of_read {R : Column Tag → Cell Tag → Prop}
    (each : ∀ {column : Column Tag} {s : Progress} {cell : Cell Tag} {t : Progress},
      readCell source column s = .ok cell t → R column cell)
    {start : Nat} {pool : Pool} (ok : (read source count start).result = .ok pool) :
    pool.store.Lists fun row => List.Forall₂ R row.table.columns row.cells := by
  obtain ⟨t, run, -, rfl⟩ := exists_run_of_read ok
  refine kept_of_readEntries (fun {tag cells _ _ _ _ _} read added h => ?_) stocked_emptyStore run
    lists_emptyStore
  obtain ⟨-, position, -, found, -, same⟩ := Store.addRowAt_eq_ok.mp added
  rw [same]
  exact h.withRow found (forall₂_of_mapM_eq_ok R each read)

theorem lists_of_read {start : Nat} {pool : Pool}
    (ok : (read source count start).result = .ok pool) : pool.store.Lists KindedRow := by
  have kinds := forall₂_of_read
    (R := fun (column : Column Tag) (cell : Cell Tag) => cell.value.shape = column.type.shape)
    shape_of_readCell ok
  exact kinds.imp fun row kinded => kinded.flip

/-- What holds of the rows in the tables holds of the row in a slot. -/
theorem of_get {P : Row Tag → Prop} {start : Nat} {pool : Pool}
    (ok : (read source count start).result = .ok pool) (lists : pool.store.Lists P) {slot : Nat}
    {row : Row Tag} (found : pool.get slot = .ok row) : P row := by
  obtain ⟨rows, all⟩ := exists_enumerated_of_read ok
  obtain ⟨table, member, listed⟩ := (all.tables row).mp ((all.get slot row).mp found).1
  exact (lists table member row listed).2

end Pool

namespace HandleKind

variable {code : UInt8}

theorem exists_code_iff : (∃ kind : HandleKind, kind.code = code) ↔
    1 ≤ code.toNat ∧ code.toNat ≤ 9 := by
  constructor
  · rintro ⟨kind, rfl⟩
    cases kind <;> decide
  · rintro ⟨low, high⟩
    have named : ∀ n, 1 ≤ n → n ≤ 9 → ∃ kind ∈ all, kind.code.toNat = n := by decide
    obtain ⟨kind, -, same⟩ := named code.toNat low high
    exact ⟨kind, UInt8.toNat_inj.mp same⟩

theorem ofCode_code (kind : HandleKind) : ofCode kind.code = .ok kind := by
  cases kind <;> rfl

theorem ofCode_eq_error (unknown : ¬(1 ≤ code.toNat ∧ code.toNat ≤ 9)) :
    ofCode code = .error (.invalidReferenceKind code.toNat) := by
  unfold ofCode
  cases found : all.find? fun kind => kind.code == code with
  | none => rfl
  | some kind =>
      have same := List.find?_some found
      rw [beq_iff_eq] at same
      exact absurd (exists_code_iff.mp ⟨kind, same⟩) unknown

end HandleKind

/-- The shapes of the values of a constant. -/
def Tag.shapes : Tag → List Shape
  | .utf8 => [.text]
  | .integer | .float => [.word]
  | .long | .double => [.word, .word]
  | .classInfo | .string | .methodType | .moduleInfo | .packageInfo => [.short]
  | .fieldref | .methodref | .interfaceMethodref | .nameAndType | .dynamic | .invokeDynamic =>
    [.short, .short]
  | .methodHandle => [.byte, .short]

theorem Tag.map_shape_columns (tag : Tag) :
    tag.columns.map (fun column => column.type.shape) = tag.shapes := by
  cases tag <;> rfl

/-- The kinds of method handles by their numbers, and the kind of constant that the
member has to be. Two of the kinds leave it open. -/
def HandleKind.numbered : List (UInt8 × HandleKind × Option Tag) :=
  [(1, .getField, some .fieldref), (2, .getStatic, some .fieldref),
   (3, .putField, some .fieldref), (4, .putStatic, some .fieldref),
   (5, .invokeVirtual, some .methodref), (6, .invokeStatic, none), (7, .invokeSpecial, none),
   (8, .newInvokeSpecial, some .methodref), (9, .invokeInterface, some .interfaceMethodref)]

theorem HandleKind.mem_numbered (kind : HandleKind) :
    (kind.code, kind, kind.target?) ∈ numbered := by
  cases kind <;> decide

namespace Pool

/-- What the accessors of a kind of constants answer on a row, by the values of the
row. The names, descriptors and values that are texts are those of the pool. A
method handle whose kind is not one of the nine answers with this kind as an
error. -/
inductive Tells (pool : Pool) :
    Tag → List (Value Tag) → List (String × Except TableError Property) → Prop
  | utf8 (s : String) : Tells pool .utf8 [.text s] [("value", .ok (.text s))]
  | integer (bits : UInt32) :
    Tells pool .integer [.word bits]
      [("bytes", .ok (.number bits.toNat)), ("value", .ok (.int32 bits.toInt32))]
  | float (bits : UInt32) :
    Tells pool .float [.word bits]
      [("bytes", .ok (.number bits.toNat)), ("value", .ok (.float32 bits))]
  | long (high low : UInt32) (bits : UInt64) (join : bits.toNat = high.toNat * 2 ^ 32 + low.toNat) :
    Tells pool .long [.word high, .word low]
      [("high_bytes", .ok (.number high.toNat)), ("low_bytes", .ok (.number low.toNat)),
       ("value", .ok (.int64 bits.toInt64))]
  | double (high low : UInt32) (bits : UInt64)
      (join : bits.toNat = high.toNat * 2 ^ 32 + low.toNat) :
    Tells pool .double [.word high, .word low]
      [("high_bytes", .ok (.number high.toNat)), ("low_bytes", .ok (.number low.toNat)),
       ("value", .ok (.float64 bits))]
  | classInfo (name : UInt16) :
    Tells pool .classInfo [.short name]
      [("name_index", .ok (.constant (.typed .utf8 name.toNat))),
       ("name", .text <$> pool.utf8 name.toNat)]
  | string (text : UInt16) :
    Tells pool .string [.short text]
      [("string_index", .ok (.constant (.typed .utf8 text.toNat))),
       ("value", .text <$> pool.utf8 text.toNat)]
  | fieldref (owner member : UInt16) :
    Tells pool .fieldref [.short owner, .short member]
      [("class_index", .ok (.constant (.typed .classInfo owner.toNat))),
       ("name_and_type_index", .ok (.constant (.typed .nameAndType member.toNat)))]
  | methodref (owner member : UInt16) :
    Tells pool .methodref [.short owner, .short member]
      [("class_index", .ok (.constant (.typed .classInfo owner.toNat))),
       ("name_and_type_index", .ok (.constant (.typed .nameAndType member.toNat)))]
  | interfaceMethodref (owner member : UInt16) :
    Tells pool .interfaceMethodref [.short owner, .short member]
      [("class_index", .ok (.constant (.typed .classInfo owner.toNat))),
       ("name_and_type_index", .ok (.constant (.typed .nameAndType member.toNat)))]
  | nameAndType (name descriptor : UInt16) :
    Tells pool .nameAndType [.short name, .short descriptor]
      [("name_index", .ok (.constant (.typed .utf8 name.toNat))),
       ("descriptor_index", .ok (.constant (.typed .utf8 descriptor.toNat))),
       ("name", .text <$> pool.utf8 name.toNat),
       ("descriptor", .text <$> pool.utf8 descriptor.toNat)]
  | methodHandle (code : UInt8) (kind : HandleKind) (target : Option Tag) (member : UInt16)
      (known : (code, kind, target) ∈ HandleKind.numbered) :
    Tells pool .methodHandle [.byte code, .short member]
      [("reference_kind", .ok (.handleKind kind)),
       ("reference_index", .ok (.constant ⟨target, member.toNat⟩))]
  | unknownHandle (code : UInt8) (member : UInt16)
      (unknown : ¬(1 ≤ code.toNat ∧ code.toNat ≤ 9)) :
    Tells pool .methodHandle [.byte code, .short member]
      [("reference_kind", .error (.invalidReferenceKind code.toNat)),
       ("reference_index", .error (.invalidReferenceKind code.toNat))]
  | methodType (descriptor : UInt16) :
    Tells pool .methodType [.short descriptor]
      [("descriptor_index", .ok (.constant (.typed .utf8 descriptor.toNat)))]
  | dynamic (method member : UInt16) :
    Tells pool .dynamic [.short method, .short member]
      [("bootstrap_method_attr_index", .ok (.number method.toNat)),
       ("name_and_type_index", .ok (.constant (.typed .nameAndType member.toNat)))]
  | invokeDynamic (method member : UInt16) :
    Tells pool .invokeDynamic [.short method, .short member]
      [("bootstrap_method_attr_index", .ok (.number method.toNat)),
       ("name_and_type_index", .ok (.constant (.typed .nameAndType member.toNat)))]
  | moduleInfo (name : UInt16) :
    Tells pool .moduleInfo [.short name]
      [("name_index", .ok (.constant (.typed .utf8 name.toNat)))]
  | packageInfo (name : UInt16) :
    Tells pool .packageInfo [.short name]
      [("name_index", .ok (.constant (.typed .utf8 name.toNat)))]

/-- The accessors of the kind of the row answer what its values tell. -/
def Answers (pool : Pool) (row : Row Tag) : Prop :=
  pool.Tells row.table (row.cells.map Cell.value) (pool.view row.table.accessors row)

variable {pool : Pool} {row : Row Tag}

theorem handleKind_eq {kind : UInt8} (read : row.byte 0 = .ok kind) :
    handleKind row = HandleKind.ofCode kind := by
  unfold handleKind
  rw [read]
  rfl

/-- The accessors of a method handle answer as the kind does. -/
theorem view_methodHandle (pool : Pool) {code : UInt8} {member : UInt16}
    (first : row.byte 0 = .ok code) (second : row.short 1 = .ok member) :
    pool.view Tag.methodHandle.accessors row =
      [("reference_kind", .handleKind <$> HandleKind.ofCode code),
       ("reference_index",
        (fun kind => .constant ⟨kind.target?, member.toNat⟩) <$> HandleKind.ofCode code)] := by
  simp only [view, Tag.accessors, List.map, Accessor.read, handleTarget, handleKind_eq first,
    second]
  cases HandleKind.ofCode code <;> rfl

/-- A row with a value for each column of its kind answers what these tell. -/
theorem answers (kinded : KindedRow row) : pool.Answers row := by
  have shapes := kinded.shapes.trans row.table.map_shape_columns
  obtain ⟨tag, index, cells⟩ := row
  unfold Answers
  dsimp only at shapes ⊢
  cases tag
  case utf8 =>
    simp only [Tag.shapes, Cell.shapes_eq_cons, Value.shape_eq_text, List.map_eq_nil_iff] at shapes
    obtain ⟨_, _, _, _, _, rfl, ⟨s, rfl⟩, rfl⟩ := shapes
    exact .utf8 s
  case integer | float =>
    simp only [Tag.shapes, Cell.shapes_eq_cons, Value.shape_eq_word, List.map_eq_nil_iff] at shapes
    obtain ⟨_, _, _, _, _, rfl, ⟨bits, rfl⟩, rfl⟩ := shapes
    constructor
  case long | double =>
    simp only [Tag.shapes, Cell.shapes_eq_cons, Value.shape_eq_word, List.map_eq_nil_iff] at shapes
    obtain ⟨_, _, _, _, _, rfl, ⟨high, rfl⟩, _, _, _, _, _, rfl, ⟨low, rfl⟩, rfl⟩ := shapes
    constructor
    exact toNat_joinWords high low
  case methodHandle =>
    simp only [Tag.shapes, Cell.shapes_eq_cons, Value.shape_eq_byte, Value.shape_eq_short,
      List.map_eq_nil_iff] at shapes
    obtain ⟨_, _, _, _, _, rfl, ⟨code, rfl⟩, _, _, _, _, _, rfl, ⟨member, rfl⟩, rfl⟩ := shapes
    rw [view_methodHandle pool rfl rfl]
    by_cases known : 1 ≤ code.toNat ∧ code.toNat ≤ 9
    · obtain ⟨kind, rfl⟩ := HandleKind.exists_code_iff.mpr known
      rw [HandleKind.ofCode_code]
      exact .methodHandle kind.code kind kind.target? member kind.mem_numbered
    · rw [HandleKind.ofCode_eq_error known]
      exact .unknownHandle code member known
  case classInfo | string | methodType | moduleInfo | packageInfo =>
    simp only [Tag.shapes, Cell.shapes_eq_cons, Value.shape_eq_short, List.map_eq_nil_iff] at shapes
    obtain ⟨_, _, _, _, _, rfl, ⟨index, rfl⟩, rfl⟩ := shapes
    constructor
  all_goals
    simp only [Tag.shapes, Cell.shapes_eq_cons, Value.shape_eq_short, List.map_eq_nil_iff] at shapes
    obtain ⟨_, _, _, _, _, rfl, ⟨first, rfl⟩, _, _, _, _, _, rfl, ⟨second, rfl⟩, rfl⟩ := shapes
    constructor

end Pool

end ClassFormat.Constant
