import ClassFormat.Table.Column

/-!
# Kinds of attributes

An attribute is told apart by its name. A kind fixes the columns of the
payload; attributes whose structure is not decoded, and those of unknown names,
have one column with all bytes. The entry records that some attributes list
have tables, and hence names, of their own.
-/
namespace ClassFormat

/-- The columns of an entry record. None of them holds records in turn. -/
def Entry.layout : Entry → Layout
  | .exceptionHandler =>
    [("start_pc", .uint16), ("end_pc", .uint16), ("handler_pc", .uint16), ("catch_type", .uint16)]
  | .innerClass =>
    [("inner_class_info_index", .uint16), ("outer_class_info_index", .uint16),
     ("inner_name_index", .uint16), ("inner_class_access_flags", .uint16)]
  | .lineNumber => [("start_pc", .uint16), ("line_number", .uint16)]
  | .localVariable =>
    [("start_pc", .uint16), ("length", .uint16), ("name_index", .uint16),
     ("descriptor_index", .uint16), ("index", .uint16)]
  | .localVariableType =>
    [("start_pc", .uint16), ("length", .uint16), ("name_index", .uint16),
     ("signature_index", .uint16), ("index", .uint16)]
  | .bootstrapMethod => [("bootstrap_method_ref", .uint16), ("bootstrap_arguments", .shortArray)]
  | .methodParameter => [("name_index", .uint16), ("access_flags", .uint16)]

namespace Attribute

inductive Kind where
  | constantValue | code | exceptions | innerClasses | enclosingMethod | signature | sourceFile
  | sourceDebugExtension | lineNumberTable | localVariableTable | localVariableTypeTable
  | bootstrapMethods | methodParameters | nestHost | nestMembers | permittedSubclasses
  | deprecated | synthetic | stackMapTable
  | runtimeVisibleAnnotations | runtimeInvisibleAnnotations
  | runtimeVisibleParameterAnnotations | runtimeInvisibleParameterAnnotations
  | runtimeVisibleTypeAnnotations | runtimeInvisibleTypeAnnotations | annotationDefault
  /-- An entry record, in the table of its name. -/
  | ofEntry (entry : Entry)
deriving Repr, DecidableEq

/-- One column with all bytes. -/
def rawLayout : Layout := [("info", .raw)]

namespace Kind

def all : List Kind :=
  [.constantValue, .code, .exceptions, .innerClasses, .enclosingMethod, .signature, .sourceFile,
   .sourceDebugExtension, .lineNumberTable, .localVariableTable, .localVariableTypeTable,
   .bootstrapMethods, .methodParameters, .nestHost, .nestMembers, .permittedSubclasses,
   .deprecated, .synthetic, .stackMapTable, .runtimeVisibleAnnotations,
   .runtimeInvisibleAnnotations, .runtimeVisibleParameterAnnotations,
   .runtimeInvisibleParameterAnnotations, .runtimeVisibleTypeAnnotations,
   .runtimeInvisibleTypeAnnotations, .annotationDefault] ++ Entry.all.map .ofEntry

def name : Kind → String
  | .constantValue => "ConstantValue"
  | .code => "Code"
  | .exceptions => "Exceptions"
  | .innerClasses => "InnerClasses"
  | .enclosingMethod => "EnclosingMethod"
  | .signature => "Signature"
  | .sourceFile => "SourceFile"
  | .sourceDebugExtension => "SourceDebugExtension"
  | .lineNumberTable => "LineNumberTable"
  | .localVariableTable => "LocalVariableTable"
  | .localVariableTypeTable => "LocalVariableTypeTable"
  | .bootstrapMethods => "BootstrapMethods"
  | .methodParameters => "MethodParameters"
  | .nestHost => "NestHost"
  | .nestMembers => "NestMembers"
  | .permittedSubclasses => "PermittedSubclasses"
  | .deprecated => "Deprecated"
  | .synthetic => "Synthetic"
  | .stackMapTable => "StackMapTable"
  | .runtimeVisibleAnnotations => "RuntimeVisibleAnnotations"
  | .runtimeInvisibleAnnotations => "RuntimeInvisibleAnnotations"
  | .runtimeVisibleParameterAnnotations => "RuntimeVisibleParameterAnnotations"
  | .runtimeInvisibleParameterAnnotations => "RuntimeInvisibleParameterAnnotations"
  | .runtimeVisibleTypeAnnotations => "RuntimeVisibleTypeAnnotations"
  | .runtimeInvisibleTypeAnnotations => "RuntimeInvisibleTypeAnnotations"
  | .annotationDefault => "AnnotationDefault"
  | .ofEntry entry => entry.tableName

def ofName? (s : String) : Option Kind :=
  all.find? fun kind => kind.name == s

def layout : Kind → Layout
  | .constantValue => [("constantvalue_index", .uint16)]
  | .code =>
    [("max_stack", .uint16), ("max_locals", .uint16), ("code", .byteArray),
     ("exception_table", .entries .exceptionHandler), ("attributes", .attributes)]
  | .exceptions => [("exception_index_table", .shortArray)]
  | .innerClasses => [("classes", .entries .innerClass)]
  | .enclosingMethod => [("class_index", .uint16), ("method_index", .uint16)]
  | .signature => [("signature_index", .uint16)]
  | .sourceFile => [("sourcefile_index", .uint16)]
  | .sourceDebugExtension => [("debug_extension", .raw)]
  | .lineNumberTable => [("line_number_table", .entries .lineNumber)]
  | .localVariableTable => [("local_variable_table", .entries .localVariable)]
  | .localVariableTypeTable => [("local_variable_type_table", .entries .localVariableType)]
  | .bootstrapMethods => [("bootstrap_methods", .entries .bootstrapMethod)]
  | .methodParameters => [("parameters", .entries .methodParameter)]
  | .nestHost => [("host_class_index", .uint16)]
  | .nestMembers | .permittedSubclasses => [("classes", .shortArray)]
  | .ofEntry entry => entry.layout
  | _ => rawLayout

end Kind

/-- The columns of the attributes of a name. -/
def layoutOf (name : String) : Layout :=
  match Kind.ofName? name with
  | some kind => kind.layout
  | none => rawLayout

def typesOf (name : String) : List ColumnType :=
  (layoutOf name).types

def columnsOf (name : String) : List (Column String) :=
  (layoutOf name).columns name

end Attribute

end ClassFormat
