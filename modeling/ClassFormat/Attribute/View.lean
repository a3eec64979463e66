import ClassFormat.Attribute.Pool
import ClassFormat.Property

/-!
# Accessors of attributes

Each kind of attribute and each entry record has accessors by name. Indexes
into the constant pool are answered as references, to be resolved there; where
a zero index means that there is none, the answer is `Property.absent`.
-/
namespace ClassFormat.Attribute

inductive Accessor where
  | short (column : Nat)
  | bytes (column : Nat)
  | flags (column : Nat) (place : FlagPlace)
  /-- A reference to a constant, of the given kind or of any. -/
  | constant (column : Nat) (target : Option Constant.Tag)
  | optionalConstant (column : Nat) (target : Constant.Tag)
  | constants (column : Nat) (target : Option Constant.Tag)
  /-- The references as they are. -/
  | records (column : Nat)
  /-- The rows that the references lead to. -/
  | rows (column : Nat)
deriving Repr, DecidableEq

def entryAccessors : Entry → List (String × Accessor)
  | .exceptionHandler =>
    [("start_pc", .short 0), ("end_pc", .short 1), ("handler_pc", .short 2),
     ("catch_type", .optionalConstant 3 .classInfo)]
  | .innerClass =>
    [("inner_class_info_index", .constant 0 (some .classInfo)),
     ("outer_class_info_index", .optionalConstant 1 .classInfo),
     ("inner_name_index", .optionalConstant 2 .utf8),
     ("inner_class_access_flags", .flags 3 .innerClass)]
  | .lineNumber => [("start_pc", .short 0), ("line_number", .short 1)]
  | .localVariable =>
    [("start_pc", .short 0), ("length", .short 1), ("name_index", .constant 2 (some .utf8)),
     ("descriptor_index", .constant 3 (some .utf8)), ("index", .short 4)]
  | .localVariableType =>
    [("start_pc", .short 0), ("length", .short 1), ("name_index", .constant 2 (some .utf8)),
     ("signature_index", .constant 3 (some .utf8)), ("index", .short 4)]
  | .bootstrapMethod =>
    [("bootstrap_method_ref", .constant 0 (some .methodHandle)),
     ("bootstrap_arguments", .constants 1 none)]
  | .methodParameter =>
    [("name_index", .optionalConstant 0 .utf8), ("access_flags", .flags 1 .parameter)]

/-- Attributes that are not decoded answer their bytes. -/
def rawAccessors : List (String × Accessor) := [("info", .bytes 0)]

def Kind.accessors : Kind → List (String × Accessor)
  | .constantValue => [("constantvalue_index", .constant 0 none)]
  | .code =>
    [("max_stack", .short 0), ("max_locals", .short 1), ("code", .bytes 2),
     ("exception_table", .records 3), ("exception_handlers", .rows 3), ("attributes", .records 4)]
  | .exceptions => [("exception_index_table", .constants 0 (some .classInfo))]
  | .innerClasses => [("classes", .rows 0)]
  | .enclosingMethod =>
    [("class_index", .constant 0 (some .classInfo)),
     ("method_index", .optionalConstant 1 .nameAndType)]
  | .signature => [("signature_index", .constant 0 (some .utf8))]
  | .sourceFile => [("sourcefile_index", .constant 0 (some .utf8))]
  | .sourceDebugExtension => [("debug_extension", .bytes 0)]
  | .lineNumberTable => [("line_number_table", .rows 0)]
  | .localVariableTable => [("local_variable_table", .rows 0)]
  | .localVariableTypeTable => [("local_variable_type_table", .rows 0)]
  | .bootstrapMethods => [("bootstrap_methods", .rows 0)]
  | .methodParameters => [("parameters", .rows 0)]
  | .nestHost => [("host_class_index", .constant 0 (some .classInfo))]
  | .nestMembers | .permittedSubclasses => [("classes", .constants 0 (some .classInfo))]
  | .ofEntry entry => entryAccessors entry
  | _ => rawAccessors

/-- The accessors for the rows in the table of a name. -/
def accessorsOf (name : String) : List (String × Accessor) :=
  match Kind.ofName? name with
  | some kind => kind.accessors
  | none => rawAccessors

def Accessor.read (pool : Pool) (row : Row String) : Accessor → Except TableError Property
  | .short column => return .number (← row.short column).toNat
  | .bytes column => return .bytes (← row.bytes column)
  | .flags column place => return .flags (.ofBits place (← row.short column))
  | .constant column target => return .constant ⟨target, (← row.short column).toNat⟩
  | .optionalConstant column target => do
    let slot := (← row.short column).toNat
    return if slot = 0 then .absent else .constant (.typed target slot)
  | .constants column target => do
    let slots ← row.shorts column
    return .constants (slots.map fun slot => ⟨target, slot.toNat⟩)
  | .records column => return .records (← row.references column)
  | .rows column => do
    let rows ← pool.store.resolveAll (← row.references column)
    return .rows (rows.map Row.index)

/-- What accessors answer on a row, by name. -/
def Pool.view (pool : Pool) (accessors : List (String × Accessor)) (row : Row String) :
    List (String × Except TableError Property) :=
  accessors.map fun accessor => (accessor.1, accessor.2.read pool row)

end ClassFormat.Attribute
