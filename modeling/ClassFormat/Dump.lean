import ClassFormat.ClassFile.Decode

/-!
# Listings of class files

A listing is printed piece by piece. A name that cannot be looked up ends it;
what was printed before stays.
-/
namespace ClassFormat.Dump

structure Options where
  /-- Lists every constant. -/
  constants : Bool := false
  /-- Lists every row of the attribute pool. -/
  attributes : Bool := false
deriving Repr, DecidableEq

/-- Prints text, until something fails. -/
abbrev Printer := EStateM DecodingError String

def print (text : String) : Printer Unit :=
  modify fun printed => printed ++ text

def line (text : String) : Printer Unit :=
  print (text ++ "\n")

def lift {α : Type} (result : Except DecodingError α) : Printer α := fun printed =>
  match result with
  | .ok a => .ok a printed
  | .error e => .error e printed

def lookUp {α : Type} (result : Except TableError α) : Printer α :=
  lift (result.mapError .table)

/-- The index, the table and the cells of a row. -/
def rowText {τ : Type} [TableTag τ] (row : Row τ) : String :=
  s!"#{row.index} {TableTag.label row.table} {row.displayCells}"

def printReferences (indent : String) (references : List (Reference String)) : Printer Unit :=
  references.forM fun reference => line (indent ++ reference.display)

/-- The line with the name of the class and of those it extends. -/
def printClass (c : ClassFile) : Printer Unit := do
  print s!"class {← lift c.className}"
  match ← lift c.superClassName with
  | some name => print s!" extends {name}"
  | none => pure ()
  let interfaces ← lift c.interfaceNames
  if !interfaces.isEmpty then print (" implements " ++ ", ".intercalate interfaces)
  line ""

def printFacts (c : ClassFile) : Printer Unit := do
  line s!"  version: {c.majorVersion}.{c.minorVersion}"
  line s!"  flags: {c.flags.display}"
  line s!"  constant pool: {c.constants.count - 1} slots, {c.constants.store.rowCount} entries"

def printField (c : ClassFile) (field : Member) : Printer Unit := do
  let name ← lookUp (field.name c.constants)
  let descriptor ← lookUp (field.descriptor c.constants)
  line s!"  {name} {descriptor} {field.flags.display}"
  printReferences "    " field.attributes

/-- The sizes of a method body. -/
def codeText (code : Row String) : Except TableError String := do
  let stack ← code.short 0
  let locals ← code.short 1
  let bytes ← code.bytes 2
  let handlers ← code.references 3
  return s!"    code: max_stack={stack} max_locals={locals} {bytes.length} bytes, {handlers.length} handlers"

def printMethod (c : ClassFile) (method : Member) : Printer Unit := do
  let name ← lookUp (method.name c.constants)
  let descriptor ← lookUp (method.descriptor c.constants)
  line s!"  {name}{descriptor} {method.flags.display}"
  match ← lookUp (method.code? c.attributePool) with
  | some code => line (← lookUp (codeText code))
  | none => pure ()
  printReferences "    " method.attributes

def printConstants (c : ClassFile) : Printer Unit := do
  line "constant pool:"
  c.constants.store.indexes.forM fun index => do
    let row ← lookUp (c.constants.store.row index)
    line ("  " ++ rowText row)

def printAttributePool (pool : Attribute.Pool) : Printer Unit := do
  line "attribute pool:"
  pool.store.tables.forM fun table => do
    line s!"  {table.tag} ({table.rows.size} rows)"
    table.rows.forM fun row => line ("    " ++ rowText row)

def printAll (options : Options) (c : ClassFile) : Printer Unit := do
  printClass c
  printFacts c
  line "fields:"
  c.fields.forM (printField c)
  line "methods:"
  c.methods.forM (printMethod c)
  line "attributes:"
  printReferences "  " c.attributes
  if options.constants then printConstants c
  if options.attributes then printAttributePool c.attributePool

/-- What was printed, and the failure that ended it. -/
structure Listing where
  text : String
  failure : Option DecodingError

def listing (options : Options) (c : ClassFile) : Listing :=
  match printAll options c "" with
  | .ok _ text => ⟨text, none⟩
  | .error e text => ⟨text, some e⟩

end ClassFormat.Dump
