import ClassFormat.Attribute.View
import ClassFormat.Proofs.Attribute.Typing

/-!
# What the accessors of attributes answer

For each table, its accessors by name with what they answer on the values of a
row. The accessors name columns by number and take the shapes of their values for
granted, and the layout of the kind names the columns again. Both agree, so that
every row answers what is said here, in any pool that reads lead to.
-/
namespace ClassFormat.Attribute

theorem kinded_of_fills {columns : List (Column String)} {row : Row String}
    (fills : List.Forall₂ Cell.Fills columns row.cells) : row.Kinded columns :=
  (fills.imp fun _ _ fill => fill.suits.shape).flip

theorem exists_fills {columns : List (Column String)} {cells : List (Cell String)}
    (fills : List.Forall₂ Cell.Fills columns cells) {k : Nat} {column : Column String}
    (here : columns[k]? = some column) : ∃ cell, cells[k]? = some cell ∧ cell.Fills column := by
  induction fills generalizing k with
  | nil => cases here
  | cons first _ ih =>
      cases k with
      | zero =>
          cases here
          exact ⟨_, rfl, first⟩
      | succ k => exact ih here

/-- The references that are read from a column are in the row, and they go where
those of the column do. -/
theorem Pool.Filled.of_references {pool : Pool} {row : Row String} (filled : pool.Filled row)
    {column : Nat} {type : ColumnType} (here : (typesOf row.table)[column]? = some type)
    {references : List (Reference String)} (read : row.references column = .ok references) :
    references ⊆ row.cited ∧ ∀ table, type.entryTable? = some table →
      ∀ reference ∈ references, reference.table = some table := by
  rw [← map_type_columnsOf, List.getElem?_map, Option.map_eq_some_iff] at here
  obtain ⟨owner, here, rfl⟩ := here
  obtain ⟨cell, found, fill⟩ := exists_fills filled.fills here
  have value : cell.value.references? = some references := by
    unfold Row.references Row.content Row.cell at read
    rw [found] at read
    cases picked : cell.value.references? with
    | none => simp [bind, Except.bind, picked] at read
    | some list => simpa [bind, Except.bind, picked] using read
  have cited : cell.value.cited = references := by
    rw [Value.cited, value]
    rfl
  refine ⟨fun reference member => ?_, fun table home => ?_⟩
  · exact List.mem_flatMap.mpr ⟨cell, List.mem_of_getElem? found, cited ▸ member⟩
  · rw [← cited]
    exact fill.suits.homed table home

/-- Lists of references that lead to rows are resolved in order. -/
theorem Pool.exists_resolveAll {pool : Pool} {references : List (Reference String)}
    (leads : ∀ reference ∈ references, pool.Leads reference) :
    ∃ rows, List.Forall₂ (fun reference row => pool.resolve reference = .ok row) references rows ∧
      pool.store.resolveAll references = .ok rows ∧ rows.map Row.reference = references := by
  induction references with
  | nil => exact ⟨[], .nil, rfl, rfl⟩
  | cons reference references ih =>
      obtain ⟨⟨row, found, same⟩, leads⟩ := List.forall_mem_cons.mp leads
      obtain ⟨rows, each, others, rest⟩ := ih leads
      refine ⟨row :: rows, .cons found each, ?_, by rw [List.map_cons, ← same, rest]⟩
      unfold Store.resolveAll at others ⊢
      unfold Pool.resolve at found
      rw [List.mapM_cons, found, others]
      rfl

namespace Pool

/-- The references lead to the rows, in their order, and these are in a table. -/
structure Gathers (pool : Pool) (table : String) (references : List (Reference String))
    (rows : List (Row String)) : Prop where
  each : List.Forall₂ (fun reference row => pool.resolve reference = .ok row) references rows
  same : rows.map Row.reference = references
  home : ∀ row ∈ rows, row.table = table

/-- What the accessors of a table answer on a row, by the values of the row. An
optional index is absent if it is zero. Records that are decoded are answered by
their rows, and flags by the bits that are defined for them. -/
inductive Tells (pool : Pool) :
    String → List (Value String) → List (String × Except TableError Property) → Prop
  | constantValue (index : UInt16) :
    Tells pool "ConstantValue" [.short index]
      [("constantvalue_index", .ok (.constant (.untyped index.toNat)))]
  | code (stack locals : UInt16) (bytes : List UInt8)
      (handlers attributes : List (Reference String)) (rows : List (Row String))
      (gathered : pool.Gathers "ExceptionTableRef" handlers rows) :
    Tells pool "Code"
      [.short stack, .short locals, .bytes bytes, .references handlers, .references attributes]
      [("max_stack", .ok (.number stack.toNat)), ("max_locals", .ok (.number locals.toNat)),
       ("code", .ok (.bytes bytes)), ("exception_table", .ok (.records handlers)),
       ("exception_handlers", .ok (.rows (rows.map Row.index))),
       ("attributes", .ok (.records attributes))]
  | exceptions (classes : List UInt16) :
    Tells pool "Exceptions" [.shorts classes]
      [("exception_index_table",
        .ok (.constants (classes.map fun index => .typed .classInfo index.toNat)))]
  | innerClasses (entries : List (Reference String)) (rows : List (Row String))
      (gathered : pool.Gathers "InnerClassesRef" entries rows) :
    Tells pool "InnerClasses" [.references entries]
      [("classes", .ok (.rows (rows.map Row.index)))]
  | enclosingMethod (owner method : UInt16) :
    Tells pool "EnclosingMethod" [.short owner, .short method]
      [("class_index", .ok (.constant (.typed .classInfo owner.toNat))),
       ("method_index", .ok (if method = 0 then .absent
          else .constant (.typed .nameAndType method.toNat)))]
  | signature (index : UInt16) :
    Tells pool "Signature" [.short index]
      [("signature_index", .ok (.constant (.typed .utf8 index.toNat)))]
  | sourceFile (index : UInt16) :
    Tells pool "SourceFile" [.short index]
      [("sourcefile_index", .ok (.constant (.typed .utf8 index.toNat)))]
  | sourceDebugExtension (bytes : List UInt8) :
    Tells pool "SourceDebugExtension" [.bytes bytes] [("debug_extension", .ok (.bytes bytes))]
  | lineNumberTable (entries : List (Reference String)) (rows : List (Row String))
      (gathered : pool.Gathers "LineNumberTableRef" entries rows) :
    Tells pool "LineNumberTable" [.references entries]
      [("line_number_table", .ok (.rows (rows.map Row.index)))]
  | localVariableTable (entries : List (Reference String)) (rows : List (Row String))
      (gathered : pool.Gathers "LocalVariableTableRef" entries rows) :
    Tells pool "LocalVariableTable" [.references entries]
      [("local_variable_table", .ok (.rows (rows.map Row.index)))]
  | localVariableTypeTable (entries : List (Reference String)) (rows : List (Row String))
      (gathered : pool.Gathers "LocalVariableTypeTableRef" entries rows) :
    Tells pool "LocalVariableTypeTable" [.references entries]
      [("local_variable_type_table", .ok (.rows (rows.map Row.index)))]
  | bootstrapMethods (entries : List (Reference String)) (rows : List (Row String))
      (gathered : pool.Gathers "BootstrapMethodsRef" entries rows) :
    Tells pool "BootstrapMethods" [.references entries]
      [("bootstrap_methods", .ok (.rows (rows.map Row.index)))]
  | methodParameters (entries : List (Reference String)) (rows : List (Row String))
      (gathered : pool.Gathers "MethodParametersRef" entries rows) :
    Tells pool "MethodParameters" [.references entries]
      [("parameters", .ok (.rows (rows.map Row.index)))]
  | nestHost (index : UInt16) :
    Tells pool "NestHost" [.short index]
      [("host_class_index", .ok (.constant (.typed .classInfo index.toNat)))]
  | nestMembers (classes : List UInt16) :
    Tells pool "NestMembers" [.shorts classes]
      [("classes", .ok (.constants (classes.map fun index => .typed .classInfo index.toNat)))]
  | permittedSubclasses (classes : List UInt16) :
    Tells pool "PermittedSubclasses" [.shorts classes]
      [("classes", .ok (.constants (classes.map fun index => .typed .classInfo index.toNat)))]
  | exceptionHandler (start stop handler type : UInt16) :
    Tells pool "ExceptionTableRef" [.short start, .short stop, .short handler, .short type]
      [("start_pc", .ok (.number start.toNat)), ("end_pc", .ok (.number stop.toNat)),
       ("handler_pc", .ok (.number handler.toNat)),
       ("catch_type", .ok (if type = 0 then .absent
          else .constant (.typed .classInfo type.toNat)))]
  | innerClass (inner outer name flags : UInt16) :
    Tells pool "InnerClassesRef" [.short inner, .short outer, .short name, .short flags]
      [("inner_class_info_index", .ok (.constant (.typed .classInfo inner.toNat))),
       ("outer_class_info_index", .ok (if outer = 0 then .absent
          else .constant (.typed .classInfo outer.toNat))),
       ("inner_name_index", .ok (if name = 0 then .absent
          else .constant (.typed .utf8 name.toNat))),
       ("inner_class_access_flags", .ok (.flags ⟨.innerClass, flags &&& 0x761F⟩))]
  | lineNumber (start line : UInt16) :
    Tells pool "LineNumberTableRef" [.short start, .short line]
      [("start_pc", .ok (.number start.toNat)), ("line_number", .ok (.number line.toNat))]
  | localVariable (start length name descriptor index : UInt16) :
    Tells pool "LocalVariableTableRef"
      [.short start, .short length, .short name, .short descriptor, .short index]
      [("start_pc", .ok (.number start.toNat)), ("length", .ok (.number length.toNat)),
       ("name_index", .ok (.constant (.typed .utf8 name.toNat))),
       ("descriptor_index", .ok (.constant (.typed .utf8 descriptor.toNat))),
       ("index", .ok (.number index.toNat))]
  | localVariableType (start length name signature index : UInt16) :
    Tells pool "LocalVariableTypeTableRef"
      [.short start, .short length, .short name, .short signature, .short index]
      [("start_pc", .ok (.number start.toNat)), ("length", .ok (.number length.toNat)),
       ("name_index", .ok (.constant (.typed .utf8 name.toNat))),
       ("signature_index", .ok (.constant (.typed .utf8 signature.toNat))),
       ("index", .ok (.number index.toNat))]
  | bootstrapMethod (handle : UInt16) (arguments : List UInt16) :
    Tells pool "BootstrapMethodsRef" [.short handle, .shorts arguments]
      [("bootstrap_method_ref", .ok (.constant (.typed .methodHandle handle.toNat))),
       ("bootstrap_arguments",
        .ok (.constants (arguments.map fun index => .untyped index.toNat)))]
  | methodParameter (name flags : UInt16) :
    Tells pool "MethodParametersRef" [.short name, .short flags]
      [("name_index", .ok (if name = 0 then .absent else .constant (.typed .utf8 name.toNat))),
       ("access_flags", .ok (.flags ⟨.parameter, flags &&& 0x9010⟩))]
  | raw (name : String) (bytes : List UInt8) (undecoded : structureOf name = [.raw])
      (other : name ≠ "SourceDebugExtension") :
    Tells pool name [.bytes bytes] [("info", .ok (.bytes bytes))]

/-- The accessors of the table of the row answer what its values tell. -/
def Answers (pool : Pool) (row : Row String) : Prop :=
  pool.Tells row.table (row.cells.map Cell.value) (pool.view (accessorsOf row.table) row)

/-- A search by name among references finds the row of the first one into the
table of the name, and nothing if there is none. -/
structure Finds (pool : Pool) (references : List (Reference String)) (name : String) : Prop where
  ok : ∃ found, pool.find? references name = .ok found
  none : pool.find? references name = .ok none ↔
    ∀ reference ∈ references, reference.table ≠ some name
  first : ∀ before reference after, references = before ++ reference :: after →
    (∀ other ∈ before, other.table ≠ some name) → reference.table = some name →
      ∃ row, pool.resolve reference = .ok row ∧ row.reference = reference ∧
        pool.find? references name = .ok (some row)

variable {pool : Pool} {row : Row String}

theorem Filled.shape?_eq (filled : pool.Filled row) (column : Nat) :
    row.shape? column = (typesOf row.table)[column]?.map ColumnType.shape := by
  rw [(kinded_of_fills filled.fills).shape?_eq, ← map_type_columnsOf, List.getElem?_map,
    Option.map_map]
  rfl

/-- The references in a column of entries lead to rows in the table of these. -/
theorem Filled.exists_gathers (filled : pool.Filled row) {column : Nat} {entry : Entry}
    (type : (typesOf row.table)[column]? = some (.entries entry))
    {references : List (Reference String)} (cell : row.references column = .ok references) :
    ∃ rows, pool.Gathers entry.tableName references rows ∧
      (Accessor.rows column).read pool row = .ok (.rows (rows.map Row.index)) := by
  obtain ⟨inside, homed⟩ := filled.of_references type cell
  obtain ⟨rows, each, resolved, same⟩ :=
    exists_resolveAll fun reference member => filled.leads reference (inside member)
  refine ⟨rows, ⟨each, same, fun other member => ?_⟩, ?_⟩
  · have cited : other.reference ∈ references := same ▸ List.mem_map_of_mem member
    exact Option.some.inj (homed entry.tableName rfl other.reference cited)
  · exact Except.bind_eq_ok.mpr ⟨references, cell, Except.bind_eq_ok.mpr ⟨rows, resolved, rfl⟩⟩

theorem read_optionalConstant (pool : Pool) (row : Row String) (column : Nat)
    (target : Constant.Tag) :
    (Accessor.optionalConstant column target).read pool row =
      (fun slot => if slot = 0 then .absent else .constant (.typed target slot.toNat)) <$>
        row.short column := by
  rw [Accessor.read]
  cases row.short column with
  | error e => rfl
  | ok slot =>
      change Except.ok (if slot.toNat = 0 then _ else _) = Except.ok (if slot = 0 then _ else _)
      simp only [← UInt16.toNat_inj, UInt16.toNat_zero]

theorem read_flags (pool : Pool) (row : Row String) (column : Nat) (place : FlagPlace) :
    (Accessor.flags column place).read pool row =
      (fun bits => .flags ⟨place, bits &&& place.defined⟩) <$> row.short column := by
  rw [Accessor.read]
  cases row.short column with
  | error e => rfl
  | ok bits => exact congrArg (Except.ok ∘ Property.flags) (AccessFlags.ofBits_eq place bits)

theorem accessorsOf_name (kind : Kind) : accessorsOf kind.name = kind.accessors := by
  cases kind with
  | ofEntry entry => cases entry <;> rfl
  | _ => rfl

/-- The values of entry records are those of their fields, which the accessors
answer one by one. -/
theorem tells_entry (pool : Pool) (entry : Entry) {index : Nat} {cells : List (Cell String)}
    (shapes : Cell.shapes cells = (fieldsOf entry).map ColumnType.shape) :
    pool.Tells entry.tableName (cells.map Cell.value)
      (pool.view (entryAccessors entry) ⟨entry.tableName, index, cells⟩) := by
  cases entry <;>
    simp only [fieldsOf, List.map, Cell.shapes_eq_cons, ColumnType.shape, Value.shape_eq_short,
      Value.shape_eq_shorts, List.map_eq_nil_iff] at shapes
  case exceptionHandler =>
    obtain ⟨_, _, _, _, _, rfl, ⟨start, rfl⟩, _, _, _, _, _, rfl, ⟨stop, rfl⟩,
      _, _, _, _, _, rfl, ⟨handler, rfl⟩, _, _, _, _, _, rfl, ⟨type, rfl⟩, rfl⟩ := shapes
    simp only [view, entryAccessors, List.map, read_optionalConstant]
    exact .exceptionHandler start stop handler type
  case innerClass =>
    obtain ⟨_, _, _, _, _, rfl, ⟨inner, rfl⟩, _, _, _, _, _, rfl, ⟨outer, rfl⟩,
      _, _, _, _, _, rfl, ⟨name, rfl⟩, _, _, _, _, _, rfl, ⟨flags, rfl⟩, rfl⟩ := shapes
    simp only [view, entryAccessors, List.map, read_optionalConstant, read_flags]
    exact .innerClass inner outer name flags
  case lineNumber =>
    obtain ⟨_, _, _, _, _, rfl, ⟨start, rfl⟩, _, _, _, _, _, rfl, ⟨line, rfl⟩, rfl⟩ := shapes
    exact .lineNumber start line
  case localVariable =>
    obtain ⟨_, _, _, _, _, rfl, ⟨start, rfl⟩, _, _, _, _, _, rfl, ⟨length, rfl⟩,
      _, _, _, _, _, rfl, ⟨name, rfl⟩, _, _, _, _, _, rfl, ⟨descriptor, rfl⟩,
      _, _, _, _, _, rfl, ⟨slot, rfl⟩, rfl⟩ := shapes
    exact .localVariable start length name descriptor slot
  case localVariableType =>
    obtain ⟨_, _, _, _, _, rfl, ⟨start, rfl⟩, _, _, _, _, _, rfl, ⟨length, rfl⟩,
      _, _, _, _, _, rfl, ⟨name, rfl⟩, _, _, _, _, _, rfl, ⟨signature, rfl⟩,
      _, _, _, _, _, rfl, ⟨slot, rfl⟩, rfl⟩ := shapes
    exact .localVariableType start length name signature slot
  case bootstrapMethod =>
    obtain ⟨_, _, _, _, _, rfl, ⟨handle, rfl⟩, _, _, _, _, _, rfl, ⟨arguments, rfl⟩, rfl⟩ := shapes
    exact .bootstrapMethod handle arguments
  case methodParameter =>
    obtain ⟨_, _, _, _, _, rfl, ⟨name, rfl⟩, _, _, _, _, _, rfl, ⟨flags, rfl⟩, rfl⟩ := shapes
    simp only [view, entryAccessors, List.map, read_optionalConstant, read_flags]
    exact .methodParameter name flags

/-- Attributes that are not decoded answer their bytes. -/
theorem tells_raw (pool : Pool) {name : String} (undecoded : structureOf name = [.raw])
    (other : name ≠ "SourceDebugExtension") {index : Nat} {cells : List (Cell String)}
    (shapes : Cell.shapes cells = [.bytes]) :
    pool.Tells name (cells.map Cell.value) (pool.view rawAccessors ⟨name, index, cells⟩) := by
  simp only [Cell.shapes_eq_cons, Value.shape_eq_bytes, List.map_eq_nil_iff] at shapes
  obtain ⟨_, _, _, _, _, rfl, ⟨bytes, rfl⟩, rfl⟩ := shapes
  exact .raw name bytes undecoded other

theorem Filled.shapes (filled : pool.Filled row) :
    Cell.shapes row.cells = (structureOf row.table).map ColumnType.shape := by
  rw [(kinded_of_fills filled.fills).shapes, structureOf_eq, ← map_type_columnsOf, List.map_map]
  rfl

/-- Rows of an attribute that has one column of entries answer the rows of these. -/
theorem Filled.exists_view_rows {name : String} {index : Nat} {cells : List (Cell String)}
    (filled : pool.Filled ⟨name, index, cells⟩) {entry : Entry}
    (fields : structureOf name = [.entries entry]) :
    ∃ references rows, pool.Gathers entry.tableName references rows ∧
      cells.map Cell.value = [.references references] ∧
      (Accessor.rows 0).read pool ⟨name, index, cells⟩ = .ok (.rows (rows.map Row.index)) := by
  have shapes := filled.shapes
  rw [fields] at shapes
  simp only [List.map, Cell.shapes_eq_cons, ColumnType.shape, Value.shape_eq_references,
    List.map_eq_nil_iff] at shapes
  obtain ⟨_, _, _, _, _, rfl, ⟨references, rfl⟩, rfl⟩ := shapes
  have type : (typesOf name)[0]? = some (.entries entry) := by
    rw [← structureOf_eq, fields]
    rfl
  obtain ⟨rows, gathered, answer⟩ := filled.exists_gathers type rfl
  exact ⟨references, rows, gathered, rfl, answer⟩

/-- A method body answers its fields, and the rows of its exception handlers. -/
theorem Filled.tells_code {index : Nat} {cells : List (Cell String)}
    (filled : pool.Filled ⟨"Code", index, cells⟩) :
    pool.Tells "Code" (cells.map Cell.value)
      (pool.view (Kind.accessors .code) ⟨"Code", index, cells⟩) := by
  have shapes := filled.shapes
  simp only [structureOf, List.map, Cell.shapes_eq_cons, ColumnType.shape, Value.shape_eq_short,
    Value.shape_eq_bytes, Value.shape_eq_references, List.map_eq_nil_iff] at shapes
  obtain ⟨_, _, _, _, _, rfl, ⟨stack, rfl⟩, _, _, _, _, _, rfl, ⟨locals, rfl⟩,
    _, _, _, _, _, rfl, ⟨bytes, rfl⟩, _, _, _, _, _, rfl, ⟨handlers, rfl⟩,
    _, _, _, _, _, rfl, ⟨attributes, rfl⟩, rfl⟩ := shapes
  have type : (typesOf "Code")[3]? = some (.entries .exceptionHandler) := by
    rw [← structureOf_eq]
    rfl
  obtain ⟨rows, gathered, answer⟩ := filled.exists_gathers type rfl
  simp only [view, Kind.accessors, List.map, answer]
  exact .code stack locals bytes handlers attributes rows gathered

/-- A filled row has a value for each field of its table, and its references lead
to the rows that the accessors answer. -/
theorem Filled.answers (filled : pool.Filled row) : pool.Answers row := by
  have shapes := filled.shapes
  obtain ⟨table, index, cells⟩ := row
  unfold Answers
  dsimp only at shapes ⊢
  cases known : Kind.ofName? table with
  | none =>
      have other : table ≠ "SourceDebugExtension" := by
        rintro rfl
        exact absurd known (by decide)
      have undecoded : structureOf table = [.raw] := by
        rw [structureOf_eq, typesOf, layoutOf, known]
        rfl
      unfold accessorsOf
      rw [known]
      rw [undecoded] at shapes
      exact tells_raw pool undecoded other shapes
  | some kind =>
    have same := List.find?_some (p := fun kind : Kind => kind.name == table) known
    obtain rfl := beq_iff_eq.mp same
    rw [accessorsOf_name]
    cases kind
    case ofEntry entry =>
      refine tells_entry pool entry (shapes.trans ?_)
      cases entry <;> rfl
    case code => exact filled.tells_code
    case enclosingMethod =>
      simp only [Kind.name, structureOf, List.map, Cell.shapes_eq_cons, ColumnType.shape,
        Value.shape_eq_short, List.map_eq_nil_iff] at shapes
      obtain ⟨_, _, _, _, _, rfl, ⟨owner, rfl⟩, _, _, _, _, _, rfl, ⟨method, rfl⟩, rfl⟩ := shapes
      simp only [view, Kind.accessors, List.map, read_optionalConstant]
      exact .enclosingMethod owner method
    case constantValue | signature | sourceFile | nestHost =>
      simp only [Kind.name, structureOf, List.map, Cell.shapes_eq_cons, ColumnType.shape,
        Value.shape_eq_short, List.map_eq_nil_iff] at shapes
      obtain ⟨_, _, _, _, _, rfl, ⟨index, rfl⟩, rfl⟩ := shapes
      constructor
    case exceptions | nestMembers | permittedSubclasses =>
      simp only [Kind.name, structureOf, List.map, Cell.shapes_eq_cons, ColumnType.shape,
        Value.shape_eq_shorts, List.map_eq_nil_iff] at shapes
      obtain ⟨_, _, _, _, _, rfl, ⟨classes, rfl⟩, rfl⟩ := shapes
      constructor
    case sourceDebugExtension =>
      change Cell.shapes cells = [.bytes] at shapes
      simp only [Cell.shapes_eq_cons, Value.shape_eq_bytes, List.map_eq_nil_iff] at shapes
      obtain ⟨_, _, _, _, _, rfl, ⟨bytes, rfl⟩, rfl⟩ := shapes
      exact .sourceDebugExtension bytes
    case innerClasses | lineNumberTable | localVariableTable | localVariableTypeTable |
        bootstrapMethods | methodParameters =>
      obtain ⟨entries, rows, gathered, values, answer⟩ := filled.exists_view_rows rfl
      simp only [view, Kind.accessors, List.map_singleton, values, answer]
      constructor
      exact gathered
    all_goals exact tells_raw pool rfl (by decide) shapes

theorem finds_of_leads {references : List (Reference String)}
    (leads : ∀ reference ∈ references, pool.Leads reference) (name : String) :
    pool.Finds references name := by
  have leading {reference : Reference String}
      (first : references.find? (fun reference => reference.table = some name) = some reference) :
      ∃ row, pool.resolve reference = .ok row ∧ row.reference = reference ∧
        pool.find? references name = .ok (some row) := by
    obtain ⟨row, led, same⟩ := leads reference (List.mem_of_find?_eq_some first)
    refine ⟨row, led, same.symm, ?_⟩
    unfold Pool.find?
    rw [first]
    exact Except.map_eq_ok.mpr ⟨row, led, rfl⟩
  have missing (absent : references.find? (fun reference => reference.table = some name) = none) :
      pool.find? references name = .ok none := by
    unfold Pool.find?
    rw [absent]
  refine ⟨?ok, ?none, ?first⟩
  case ok =>
    cases found : references.find? fun reference => reference.table = some name with
    | none => exact ⟨none, missing found⟩
    | some reference =>
        obtain ⟨row, -, -, answer⟩ := leading found
        exact ⟨some row, answer⟩
  case none =>
    constructor
    · intro answer
      cases found : references.find? fun reference => reference.table = some name with
      | none => simpa using List.find?_eq_none.mp found
      | some reference =>
          obtain ⟨row, -, -, other⟩ := leading found
          rw [answer] at other
          cases other
    · intro others
      exact missing (List.find?_eq_none.mpr (by simpa using others))
  case first =>
    rintro before reference after rfl others here
    apply leading
    rw [List.find?_append, List.find?_eq_none.mpr (by simpa using others)]
    simp [here]

end Pool

end ClassFormat.Attribute
