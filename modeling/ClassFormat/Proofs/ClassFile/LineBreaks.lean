import ClassFormat.Proofs.ClassFile.Listing

/-!
# Line breaks in a listing

Names and descriptors are printed as they are. So a listing that succeeds has
seven line breaks of its own, one for every field, method, method body and
attribute, and all those that the printed names hold.
-/
namespace ClassFormat.Dump

/-- The number of line breaks in a text. -/
def breaks (text : String) : Nat := text.toList.count '\n'

/-- Most texts that a listing is made of are plain. -/
theorem breaks_plain {text : String} (plain : '\n' ∉ text.toList) : breaks text = 0 :=
  List.count_eq_zero.mpr plain

@[simp] theorem breaks_append (text more : String) : breaks (text ++ more) = breaks text + breaks more := by
  rw [breaks, String.toList_append, List.count_append, breaks, breaks]

@[simp] theorem breaks_toString (text : String) : breaks (toString text) = breaks text := rfl

@[simp] theorem breaks_number (n : Nat) : breaks n.repr = 0 := by
  refine breaks_plain fun member => ?_
  have digit := Nat.isDigit_of_mem_toDigits (by decide) (by decide) (Nat.toList_repr ▸ member)
  exact absurd digit (by decide)

@[simp] theorem breaks_short (n : UInt16) : breaks (toString n) = 0 := breaks_number n.toNat

/-- The line breaks of some texts. -/
def breaksIn (texts : List String) : Nat := (texts.map breaks).sum

@[simp] theorem breaksIn_append (texts more : List String) :
    breaksIn (texts ++ more) = breaksIn texts + breaksIn more := by
  rw [breaksIn, List.map_append, List.sum_append, breaksIn, breaksIn]

theorem breaks_intercalate {separator : String} (plain : breaks separator = 0)
    (texts : List String) :
    breaks (separator.intercalate texts) = breaksIn texts := by
  have joined (lists : List (List Char)) :
      (separator.toList.intercalate lists).count '\n' = (lists.map (List.count '\n')).sum := by
    induction lists with
    | nil => rfl
    | cons list lists ih =>
        cases lists with
        | nil => simp
        | cons next lists =>
            rw [List.intercalate_cons_cons, List.count_append, List.count_append, ih]
            simp [show separator.toList.count '\n' = 0 from plain]
  rw [breaks, String.toList_intercalate, joined, List.map_map]
  rfl

@[simp] theorem breaks_flags (flags : AccessFlags) : breaks flags.display = 0 := by
  have known : ∀ flag ∈ flags.place.flags, breaks flag.1 = 0 := by
    cases flags.place <;> decide
  have plain : breaksIn flags.names = 0 := by
    rw [breaksIn, List.sum_eq_zero_iff_forall_eq_nat]
    intro n member
    obtain ⟨name, listed, rfl⟩ := List.mem_map.mp member
    obtain ⟨flag, set, rfl⟩ := List.mem_map.mp listed
    exact known flag (List.mem_filter.mp set).1
  rw [AccessFlags.display, breaks_append, breaks_append, breaks_intercalate rfl, plain]
  rfl

/-- Of a reference it is the table that may hold line breaks. -/
@[simp] theorem breaks_reference (reference : Reference String) :
    breaks reference.display = breaksIn reference.table.toList := by
  unfold Reference.display
  cases reference.table with
  | none => simp (disch := decide) [breaks_plain, breaksIn]
  | some table => simp (disch := decide) [breaks_plain, breaksIn, TableTag.label]

/-- Whenever the printer succeeds it has added so many line breaks. -/
def Adds (x : Printer Unit) (n : Nat) : Prop :=
  ∀ printed text, x printed = .ok () text → breaks text = breaks printed + n

namespace Adds

variable {α : Type} {x y : Printer Unit} {n m : Nat}

theorem of_eq (h : Adds x n) (same : n = m) : Adds x m := same ▸ h

theorem done : Adds (pure ()) 0 := by
  intro printed text run
  cases run
  rfl

theorem print (text : String) : Adds (Dump.print text) (breaks text) := by
  intro printed later run
  cases run
  exact breaks_append printed text

theorem line (text : String) : Adds (Dump.line text) (breaks text + 1) := by
  have added := print (text ++ "\n")
  rwa [breaks_append] at added

theorem andThen (first : Adds x n) (later : Adds y m) : Adds (x >>= fun _ => y) (n + m) := by
  intro printed text run
  obtain ⟨_, between, before, behind⟩ := bind_eq_ok.mp run
  rw [later between text behind, first printed between before, Nat.add_assoc]

/-- Behind a lookup the printer goes on with what was found. -/
theorem lift {result : Except DecodingError α} {f : α → Printer Unit}
    (later : ∀ a, result = .ok a → Adds (f a) n) : Adds (Dump.lift result >>= f) n := by
  intro printed text run
  obtain ⟨a, between, found, behind⟩ := bind_eq_ok.mp run
  cases result with
  | error e => cases found
  | ok b =>
      cases found
      exact later a rfl printed text behind

theorem lookUp {result : Except TableError α} {f : α → Printer Unit}
    (later : ∀ a, result = .ok a → Adds (f a) n) : Adds (Dump.lookUp result >>= f) n := by
  refine lift fun a found => later a ?_
  cases result with
  | error e => cases found
  | ok b =>
      cases found
      rfl

theorem forM {β : Type} {f : β → Printer Unit} {count : β → Nat} {bs : List β}
    (h : ∀ b ∈ bs, Adds (f b) (count b)) : Adds (bs.forM f) (bs.map count).sum := by
  induction bs with
  | nil => exact done
  | cons b bs ih =>
      obtain ⟨first, rest⟩ := List.forall_mem_cons.mp h
      rw [List.map_cons, List.sum_cons]
      exact andThen first (ih rest)

end Adds

/-- The names of attributes, by their references. -/
def tableNames (references : List (Reference String)) : List String :=
  references.filterMap Reference.table

/-- Whether a method has a body. -/
def hasBody (method : Member) : Bool := "Code" ∈ tableNames method.attributes

section Names

variable (c : ClassFile)

/-- What is printed for a field or a method: its name, its descriptor and the names
of its attributes. -/
def memberNames (member : Member) : List String :=
  (member.name c.constants).toOption.toList ++ (member.descriptor c.constants).toOption.toList ++
    tableNames member.attributes

/-- All that is printed as it stands in the class file: the names of the class and
of those it extends and implements, and what is printed for its fields, its methods
and its attributes. -/
def printedNames : List String :=
  c.className.toOption.toList ++ c.superClassName.toOption.join.toList ++
    c.interfaceNames.toOption.getD [] ++ c.fields.flatMap (memberNames c) ++
    c.methods.flatMap (memberNames c) ++ tableNames c.attributes

end Names

section Parts

variable (c : ClassFile)

theorem printReferences_adds {indent : String} (plain : breaks indent = 0)
    (references : List (Reference String)) :
    Adds (printReferences indent references)
      (references.length + breaksIn (tableNames references)) := by
  have total : (references.map fun reference => breaks (indent ++ reference.display) + 1).sum =
      references.length + breaksIn (tableNames references) := by
    induction references with
    | nil => rfl
    | cons reference references ih =>
        have names : tableNames (reference :: references) =
            reference.table.toList ++ tableNames references := by
          unfold tableNames
          cases table : reference.table <;> simp [table]
        rw [List.map_cons, List.sum_cons, ih, names, List.length_cons, breaks_append, plain,
          breaks_reference, breaksIn_append]
        omega
  rw [← total]
  exact .forM fun reference _ => .line (indent ++ reference.display)

theorem printClass_adds : Adds (printClass c)
    (1 + breaksIn (c.className.toOption.toList ++ c.superClassName.toOption.join.toList ++
      c.interfaceNames.toOption.getD [])) := by
  have ending (interfaces : List String) : Adds (do
      if !interfaces.isEmpty then print (" implements " ++ ", ".intercalate interfaces)
      line "") (breaksIn interfaces + 1) := by
    cases interfaces with
    | nil => exact .line ""
    | cons name names =>
        refine Adds.of_eq ((Adds.print _).andThen (.line "")) ?_
        rw [breaks_append, breaks_intercalate rfl]
        simp (disch := decide) [breaks_plain]
  have implemented : Adds (do
      let interfaces ← lift c.interfaceNames
      if !interfaces.isEmpty then print (" implements " ++ ", ".intercalate interfaces)
      line "") (breaksIn (c.interfaceNames.toOption.getD []) + 1) := by
    refine .lift fun interfaces found => ?_
    rw [found]
    exact ending interfaces
  unfold printClass
  refine .lift fun name found => ?_
  have total : 1 + breaksIn (c.className.toOption.toList ++
      c.superClassName.toOption.join.toList ++ c.interfaceNames.toOption.getD []) =
      breaks s!"class {name}" + (breaksIn c.superClassName.toOption.join.toList +
        (breaksIn (c.interfaceNames.toOption.getD []) + 1)) := by
    rw [found]
    simp (disch := decide) [breaks_plain, breaksIn, Except.toOption]
    omega
  rw [total]
  refine (Adds.print _).andThen (.lift fun super found' => ?_)
  rw [found']
  cases super with
  | none => exact implemented.of_eq (Nat.zero_add _).symm
  | some name =>
      refine Adds.of_eq ((Adds.print _).andThen implemented) ?_
      simp (disch := decide) [breaks_plain, breaksIn, Except.toOption]

theorem printFacts_adds : Adds (printFacts c) 3 := by
  have lines := (Adds.line s!"  version: {c.majorVersion}.{c.minorVersion}").andThen
    ((Adds.line s!"  flags: {c.flags.display}").andThen (Adds.line
      s!"  constant pool: {c.constants.count - 1} slots, {c.constants.store.rowCount} entries"))
  refine Adds.of_eq lines ?_
  simp (disch := decide) [breaks_plain]

theorem printField_adds (field : Member) : Adds (printField c field)
    (1 + field.attributes.length + breaksIn (memberNames c field)) := by
  unfold printField
  refine .lookUp fun name named => .lookUp fun descriptor described => ?_
  refine Adds.of_eq ((Adds.line _).andThen (printReferences_adds rfl field.attributes)) ?_
  rw [memberNames, named, described]
  simp (disch := decide) [breaks_plain, breaksIn, Except.toOption]
  omega

theorem breaks_codeText {code : Row String} {text : String} (known : codeText code = .ok text) :
    breaks text = 0 := by
  obtain ⟨stack, -, known⟩ := Except.bind_eq_ok.mp known
  obtain ⟨locals, -, known⟩ := Except.bind_eq_ok.mp known
  obtain ⟨bytes, -, known⟩ := Except.bind_eq_ok.mp known
  obtain ⟨handlers, -, known⟩ := Except.bind_eq_ok.mp known
  cases known
  simp (disch := decide) [breaks_plain]

/-- A search for a body finds one where an attribute has its name. -/
theorem isSome_of_code? {method : Member} {pool : Attribute.Pool} {found : Option (Row String)}
    (here : method.code? pool = .ok found) : found.isSome = hasBody method := by
  have member : hasBody method =
      (method.attributes.find? fun reference => reference.table = some "Code").isSome := by
    rw [hasBody, Bool.eq_iff_iff, List.find?_isSome, decide_eq_true_eq, tableNames,
      List.mem_filterMap]
    simp
  unfold Member.code? Attribute.Pool.find? at here
  rw [member]
  split at here
  next reference first =>
    obtain ⟨row, -, rfl⟩ := Except.map_eq_ok.mp here
    rw [first]
    rfl
  next none =>
    cases here
    rw [none]
    rfl

theorem printMethod_adds (method : Member) : Adds (printMethod c method)
    (1 + (if hasBody method then 1 else 0) + method.attributes.length +
      breaksIn (memberNames c method)) := by
  have listed := printReferences_adds (show breaks "    " = 0 from rfl) method.attributes
  unfold printMethod
  refine .lookUp fun name named => .lookUp fun descriptor described => ?_
  have total : 1 + (if hasBody method then 1 else 0) + method.attributes.length +
      breaksIn (memberNames c method) =
      breaks s!"  {name}{descriptor} {method.flags.display}" + 1 + ((if hasBody method then 1 else 0) +
        (method.attributes.length + breaksIn (tableNames method.attributes))) := by
    rw [memberNames, named, described]
    simp (disch := decide) [breaks_plain, breaksIn, Except.toOption]
    omega
  rw [total]
  refine (Adds.line _).andThen (.lookUp fun found here => ?_)
  rw [← isSome_of_code? here]
  cases found with
  | none => exact listed.of_eq (Nat.zero_add _).symm
  | some code =>
      refine .lookUp fun text known => ?_
      refine Adds.of_eq ((Adds.line text).andThen listed) ?_
      rw [breaks_codeText known]
      rfl

end Parts

/-- The number of fields, methods, method bodies and attributes. -/
def items (c : ClassFile) : Nat :=
  c.fields.length + c.methods.length + c.methods.countP hasBody + c.attributeLists.flatten.length

/-- What is added for members, each with so many lines besides its own and those of
its attributes. -/
theorem sum_members (c : ClassFile) (besides : Member → Nat) (members : List Member) :
    (members.map fun member => 1 + besides member + member.attributes.length +
        breaksIn (memberNames c member)).sum =
      members.length + (members.map besides).sum + (members.map Member.attributes).flatten.length +
        breaksIn (members.flatMap (memberNames c)) := by
  induction members with
  | nil => rfl
  | cons member members ih =>
      simp only [List.map_cons, List.sum_cons, List.length_cons, List.flatten_cons,
        List.length_append, List.flatMap_cons, breaksIn_append, ih]
      omega

theorem sum_hasBody (methods : List Member) :
    (methods.map fun method => if hasBody method then 1 else 0).sum = methods.countP hasBody := by
  induction methods with
  | nil => rfl
  | cons method methods ih => rw [List.map_cons, List.sum_cons, ih, List.countP_cons, Nat.add_comm]

theorem printAll_adds (c : ClassFile) :
    Adds (printAll {} c) (7 + items c + breaksIn (printedNames c)) := by
  have fields := Adds.forM fun field (_ : field ∈ c.fields) => printField_adds c field
  have methods := Adds.forM fun method (_ : method ∈ c.methods) => printMethod_adds c method
  have attributes := printReferences_adds (show breaks "  " = 0 from rfl) c.attributes
  have body : Adds (printBody c) _ := (printClass_adds c).andThen <| (printFacts_adds c).andThen <|
    (Adds.line "fields:").andThen <| fields.andThen <| (Adds.line "methods:").andThen <|
      methods.andThen <| (Adds.line "attributes:").andThen attributes
  have rest : Adds (printRest c {}) 0 := .done
  rw [printAll_eq]
  refine (body.andThen rest).of_eq ?_
  have first := sum_members c (fun _ => 0) c.fields
  have second := sum_members c (fun method => if hasBody method then 1 else 0) c.methods
  rw [sum_hasBody] at second
  simp only [Nat.add_zero, List.map_const', List.sum_replicate_nat, Nat.mul_zero] at first
  simp only [first, second, items, printedNames, ClassFile.attributeLists, List.map_append,
    List.flatten_cons, List.flatten_append, List.length_append, breaksIn_append,
    show breaks "fields:" = 0 from rfl, show breaks "methods:" = 0 from rfl,
    show breaks "attributes:" = 0 from rfl]
  omega

/-- A listing that succeeds has seven line breaks, one for every item, and those of
the names that are printed. -/
theorem breaks_listing (c : ClassFile) (fine : (listing {} c).failure = none) :
    breaks (listing {} c).text = 7 + items c + breaksIn (printedNames c) := by
  unfold listing at fine ⊢
  cases run : printAll {} c "" with
  | ok u text =>
      have added := printAll_adds c "" text run
      rw [show breaks "" = 0 from rfl, Nat.zero_add] at added
      exact added
  | error e text =>
      rw [run] at fine
      cases fine

/-- A class file with a method body that is listed. -/
theorem breaks_listing_sampleImage :
    ∃ c, ClassFile.ofSource ⟨ClassFile.sampleImage.encode.toArray⟩ = .ok c ∧
      (listing {} c).failure = none ∧
      breaks (listing {} c).text = 7 + items c + breaksIn (printedNames c) := by
  have listed : (ClassFile.ofSource ⟨ClassFile.sampleImage.encode.toArray⟩).toOption.any
      fun c => (listing {} c).failure.isNone := by decide +kernel
  obtain ⟨c, read, succeeds⟩ := (Option.any_eq_true _ _).mp listed
  have fine : (listing {} c).failure = none := Option.isNone_iff_eq_none.mp succeeds
  exact ⟨c, Except.toOption_eq_some.mp read, fine, breaks_listing c fine⟩

/-- A class without members, in the name of which a line ends. -/
def brokenName : ClassFile.Image where
  minorVersion := 0
  majorVersion := 52
  constants := [.utf8 "A\nB", .classInfo 1]
  flags := 0x0021
  thisClass := 2
  superClass := 0
  interfaces := []
  fields := []
  methods := []
  attributes := []

/-- So a listing may have more lines than items. -/
theorem exists_breaks_ne :
    ∃ c, ClassFile.ofSource ⟨brokenName.encode.toArray⟩ = .ok c ∧
      (listing {} c).failure = none ∧ breaks (listing {} c).text ≠ 7 + items c := by
  have listed : (ClassFile.ofSource ⟨brokenName.encode.toArray⟩).toOption.any
      fun c => (listing {} c).failure.isNone && breaks (listing {} c).text != 7 + items c := by
    decide +kernel
  obtain ⟨c, read, succeeds⟩ := (Option.any_eq_true _ _).mp listed
  obtain ⟨fine, more⟩ := Bool.and_eq_true_iff.mp succeeds
  exact ⟨c, Except.toOption_eq_some.mp read, Option.isNone_iff_eq_none.mp fine, bne_iff_ne.mp more⟩

end ClassFormat.Dump
