import ClassFormat.Dump
import ClassFormat.Proofs.Attribute.Journal
import ClassFormat.Proofs.ClassFile.Views
import ClassFormat.Proofs.Constant.Slots

/-!
# What is listed

A printer does the same whatever was printed before. What it looks up decides
how it ends, and the lookups of a listing that can fail are those of the names
and descriptors, whatever the options are.
-/
namespace ClassFormat.Dump

variable {α : Type}

/-- The printer ends with this result, and has put the text behind what was
printed before. -/
def Prints (x : Printer α) (result : Except DecodingError α) (text : String) : Prop :=
  ∀ printed, x printed = ofExcept result (printed ++ text)

/-- One text under the other. -/
def lines : List String → String
  | [] => ""
  | text :: rest => text ++ "\n" ++ lines rest

theorem lines_append (texts rest : List String) :
    lines (texts ++ rest) = lines texts ++ lines rest := by
  induction texts with
  | nil => simp [lines]
  | cons text texts ih => simp [lines, ih, String.append_assoc]

namespace Prints

variable {β : Type} {x : Printer α} {f : α → Printer β} {a : α} {text text' : String}

theorem pure (a : α) : Prints (pure a) (.ok a) "" := by
  intro printed
  rw [String.append_empty]
  rfl

theorem line (text : String) : Prints (line text) (.ok ()) (lines [text]) := by
  intro printed
  simp [lines]
  rfl

theorem lift (result : Except DecodingError α) : Prints (Dump.lift result) result "" := by
  intro printed
  rw [String.append_empty]
  cases result <;> rfl

theorem bind {result : Except DecodingError β} (first : Prints x (.ok a) text)
    (later : Prints (f a) result text') : Prints (x >>= f) result (text ++ text') := by
  intro printed
  rw [← String.append_assoc, ← later (printed ++ text)]
  change EStateM.bind x f printed = _
  rw [EStateM.bind, first printed]
  rfl

theorem bind_error {e : DecodingError} (first : Prints x (.error e) text) :
    Prints (x >>= f) (.error e) text := by
  intro printed
  change EStateM.bind x f printed = _
  rw [EStateM.bind, first printed]
  rfl

end Prints

/-- The error of the first lookup that fails. -/
def firstError {ε : Type} : List (Except ε Unit) → Option ε
  | [] => none
  | .ok _ :: rest => firstError rest
  | .error e :: _ => some e

theorem firstError_append {ε : Type} (results others : List (Except ε Unit)) :
    firstError (results ++ others) = (firstError results).or (firstError others) := by
  induction results with
  | nil => rfl
  | cons result results ih =>
      cases result with
      | ok => exact ih
      | error e => rfl

/-- Whether a lookup fails. -/
def looked (result : Except DecodingError α) : Except DecodingError Unit :=
  result.map fun _ => ()

/-- The lookups of a field or a method. -/
def memberLookUps (c : ClassFile) (member : Member) : List (Except DecodingError Unit) :=
  [looked ((member.name c.constants).mapError .table),
    looked ((member.descriptor c.constants).mapError .table)]

/-- The lookups that a listing depends on, in their order. -/
def lookUps (c : ClassFile) : List (Except DecodingError Unit) :=
  [looked c.className, looked c.superClassName, looked c.interfaceNames] ++
    c.fields.flatMap (memberLookUps c) ++ c.methods.flatMap (memberLookUps c)

/-- How a printer ends that fails with this error, if any. -/
def outcome : Option DecodingError → Except DecodingError Unit
  | none => .ok ()
  | some e => .error e

/-- Whether and how the printer fails is a matter of these lookups. -/
def DependsOn (x : Printer Unit) (results : List (Except DecodingError Unit)) : Prop :=
  ∃ text, Prints x (outcome (firstError results)) text

namespace DependsOn

variable {x y : Printer Unit} {results others : List (Except DecodingError Unit)}

theorem done : DependsOn (pure ()) [] := ⟨_, .pure ()⟩

theorem line (text : String) : DependsOn (Dump.line text) [] := ⟨_, .line text⟩

theorem print (text : String) : DependsOn (Dump.print text) [] := ⟨text, fun _ => rfl⟩

theorem andThen (first : DependsOn x results) (later : DependsOn y others) :
    DependsOn (x >>= fun _ => y) (results ++ others) := by
  obtain ⟨text, first⟩ := first
  obtain ⟨text', later⟩ := later
  unfold DependsOn
  rw [firstError_append]
  cases failure : firstError results with
  | none =>
      rw [failure] at first
      exact ⟨text ++ text', first.bind later⟩
  | some e =>
      rw [failure] at first
      exact ⟨text, first.bind_error⟩

/-- What looks nothing up can stand in front. -/
theorem behind (first : DependsOn x []) (later : DependsOn y results) :
    DependsOn (x >>= fun _ => y) results :=
  andThen first later

theorem lift {result : Except DecodingError α} {f : α → Printer Unit}
    (later : ∀ a, result = .ok a → DependsOn (f a) results) :
    DependsOn (Dump.lift result >>= f) (looked result :: results) := by
  cases result with
  | ok a => exact later a rfl
  | error e => exact ⟨"", (Prints.lift (.error e)).bind_error⟩

theorem forM {β : Type} {f : β → Printer Unit} {lookUps : β → List (Except DecodingError Unit)}
    {bs : List β} (h : ∀ b ∈ bs, DependsOn (f b) (lookUps b)) :
    DependsOn (bs.forM f) (bs.flatMap lookUps) := by
  induction bs with
  | nil => exact done
  | cons b bs ih =>
      obtain ⟨first, rest⟩ := List.forall_mem_cons.mp h
      rw [List.flatMap_cons]
      exact andThen first (ih rest)

end DependsOn

section Parts

variable (c : ClassFile)

/-- A printer behind a lookup that succeeds. -/
theorem DependsOn.lookUp {result : Except TableError α} {a : α} (known : result = .ok a)
    {f : α → Printer Unit} {results : List (Except DecodingError Unit)}
    (later : DependsOn (f a) results) : DependsOn (Dump.lookUp result >>= f) results := by
  subst known
  exact later

/-- What is listed with all options. -/
def printBody : Printer Unit := do
  printClass c
  printFacts c
  line "fields:"
  c.fields.forM (printField c)
  line "methods:"
  c.methods.forM (printMethod c)
  line "attributes:"
  printReferences "  " c.attributes

/-- What the options add. -/
def printRest (options : Options) : Printer Unit := do
  if options.constants then printConstants c
  if options.attributes then printAttributePool c.attributePool

theorem printAll_eq (options : Options) :
    printAll options c = printBody c >>= fun _ => printRest c options := by
  unfold printAll printBody printRest
  simp only [bind_assoc]

end Parts

namespace Prints

theorem andThen {x y : Printer Unit} {texts more : List String}
    (first : Prints x (.ok ()) (lines texts)) (later : Prints y (.ok ()) (lines more)) :
    Prints (x >>= fun _ => y) (.ok ()) (lines (texts ++ more)) := by
  rw [lines_append]
  exact first.bind later

theorem forM {β : Type} {f : β → Printer Unit} {texts : β → List String} {bs : List β}
    (h : ∀ b ∈ bs, Prints (f b) (.ok ()) (lines (texts b))) :
    Prints (bs.forM f) (.ok ()) (lines (bs.flatMap texts)) := by
  induction bs with
  | nil => exact pure ()
  | cons b bs ih =>
      obtain ⟨first, rest⟩ := List.forall_mem_cons.mp h
      rw [List.flatMap_cons]
      exact andThen first (ih rest)

end Prints

section Rest

variable {c : ClassFile} {rows : List (Row Constant.Tag)}

end Rest

section Listings

variable {c : ClassFile}

/-- Whether all names and descriptors of a class file can be looked up. -/
def Named (c : ClassFile) : Prop :=
  (∃ name, c.className = .ok name) ∧ (∃ super, c.superClassName = .ok super) ∧
    (∃ interfaces, c.interfaceNames = .ok interfaces) ∧
    ∀ member ∈ c.fields ++ c.methods, (∃ name, member.name c.constants = .ok name) ∧
      ∃ descriptor, member.descriptor c.constants = .ok descriptor

end Listings

end ClassFormat.Dump
