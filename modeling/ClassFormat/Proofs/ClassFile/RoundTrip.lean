import ClassFormat.Proofs.ClassFile.Body
import ClassFormat.Proofs.ClassFile.Parts
import ClassFormat.Proofs.Constant.RoundTrip

/-!
# Class files and their images

Reading the written form of an image gives a class file that says what the
image says.
-/
namespace ClassFormat.ClassFile

open Attribute BigEndian

theorem MemberImage.Fits.mono {named named' : Nat → String → Prop}
    (known : ∀ slot name, named slot name → named' slot name) {image : MemberImage}
    (h : image.Fits named) : image.Fits named' :=
  ⟨h.count, h.attributes.mono known, h.depth⟩

theorem BodyImage.Fits.mono {named named' : Nat → String → Prop}
    (known : ∀ slot name, named slot name → named' slot name) {image : BodyImage}
    (h : image.Fits named) : image.Fits named' :=
  ⟨h.interfaces, h.fieldCount, fun member m => (h.fields member m).mono known, h.methodCount,
    fun member m => (h.methods member m).mono known, h.attributeCount, h.attributes.mono known,
    h.depth⟩

namespace Image

def header (image : Image) : Header :=
  ⟨image.minorVersion, image.majorVersion, UInt16.ofNat (Constant.totalWidth image.constants + 1)⟩

def body (image : Image) : BodyImage :=
  ⟨⟨image.flags, image.thisClass, image.superClass, image.interfaces⟩, image.fields, image.methods,
    image.attributes⟩

/-- Which strings the constants of an image are. -/
def Named (image : Image) (slot : Nat) (name : String) : Prop :=
  (slot, .utf8 name) ∈ Constant.withSlots 1 image.constants

/-- Whether an image can be written: all counts and lengths fit, and every
attribute has the structure of its name, which is the string in its slot. -/
structure Fits (image : Image) : Prop where
  constants : ∀ content ∈ image.constants, content.Fits
  slots : Constant.totalWidth image.constants + 1 < 2 ^ 16
  body : image.body.Fits image.Named
  size : image.encode.length < 2 ^ 32

/-- Whether a class file is what an image says. Bits that are not defined as flags
of classes are dropped. -/
structure ReadAs (image : Image) (c : ClassFile) : Prop where
  minorVersion : c.minorVersion = image.minorVersion
  majorVersion : c.majorVersion = image.majorVersion
  constants : ∀ slot row, c.constants.get slot = .ok row ↔
    ∃ content, (slot, content) ∈ Constant.withSlots 1 image.constants ∧ row = content.row slot
  flags : c.flags = ⟨.classFile, image.flags &&& 0xF631⟩
  thisClass : c.thisClass = image.thisClass
  superClass : c.superClass = image.superClass
  interfaces : c.interfaces = image.interfaces
  fields : List.Forall₂ (fun member => member.ReadAs .field c.source c.attributePool.store)
    image.fields c.fields
  methods : List.Forall₂ (fun member => member.ReadAs .method c.source c.attributePool.store)
    image.methods c.methods
  attributes : TreesStored c.attributePool.store image.attributes c.attributes

theorem encode_eq {image : Image} (slots : Constant.totalWidth image.constants + 1 < 2 ^ 16) :
    image.encode =
      image.header.encode ++ (Constant.encodeAll image.constants ++ image.body.encode) := by
  have len : (UInt16.ofNat (Constant.totalWidth image.constants + 1)).toNat =
      Constant.totalWidth image.constants + 1 := UInt16.toNat_ofNat_of_lt' slots
  simp only [encode, encodeHeader, encodeInfo, header, body, Header.encode, BodyImage.encode,
    Info.encode, len, List.append_assoc]

end Image

/-- The written form of an image is read as a class file that says what the
image says. -/
theorem ofSource_encode {image : Image} (fits : image.Fits) :
    ∃ c, ofSource ⟨image.encode.toArray⟩ = .ok c ∧ image.ReadAs c := by
  have bytes : Source.bytes ⟨image.encode.toArray⟩ = image.encode.toArray := rfl
  generalize (⟨image.encode.toArray⟩ : Source) = source at bytes
  have small : source.size < 2 ^ 32 := by
    rw [← Source.size_bytes, bytes, List.size_toArray]
    exact fits.size
  have holds : source.Holds 0 image.encode := by
    simp [Source.Holds, bytes]
  rw [Image.encode_eq fits.slots, Source.holds_append, Source.holds_append, Header.length_encode,
    Nat.zero_add] at holds
  obtain ⟨atHeader, atConstants, atBody⟩ := holds
  have count : image.header.constantCount.toNat = Constant.totalWidth image.constants + 1 :=
    UInt16.toNat_ofNat_of_lt' fits.slots
  obtain ⟨constants, run, moved, placed⟩ :=
    Constant.read_encodeAll small fits.constants atConstants
  have bodyFits : image.body.Fits (Attribute.Named constants) :=
    fits.body.mono fun slot name h => placed.utf8_eq_ok h
  have room : ({} : Pool).store.rowCount + image.body.rows ≤ 2 ^ 32 := by
    have paid := image.body.four_mul_rows_le bodyFits
    have bound := fits.size
    rw [Image.encode_eq fits.slots, List.length_append, List.length_append] at bound
    change 0 + _ ≤ _
    omega
  obtain ⟨body, pool, planted⟩ :=
    (BodyImage.plant_adds bodyFits _).exists_ok Pool.sound_empty room
  have readAs := BodyImage.plant_readAs bodyFits atBody planted
  rw [← count] at run moved
  have read := (readBody_eq_ok small (s := ⟨{}, _⟩) (t := ⟨pool, _⟩)).mpr
    ⟨image.body, bodyFits, atBody, rfl, planted⟩
  rw [← moved] at read
  have parts : ∃ stop, readParts source = .ok ⟨image.header, constants, body, pool, stop⟩ :=
    ⟨_, readParts_eq_ok.mpr ⟨(readHeader_eq_ok small).mpr atHeader, run, read⟩⟩
  obtain ⟨stop, parts⟩ := parts
  refine ⟨_, ofSource_eq_ok.mpr ⟨_, parts, rfl⟩, ?_⟩
  exact
    { minorVersion := rfl
      majorVersion := rfl
      constants := fun slot row => placed.get_eq_ok
      flags := (congrArg (fun info : Info => AccessFlags.ofBits .classFile info.flags)
        readAs.info).trans (AccessFlags.ofBits_eq .classFile image.flags)
      thisClass := congrArg Info.thisClass readAs.info
      superClass := congrArg Info.superClass readAs.info
      interfaces := congrArg Info.interfaces readAs.info
      fields := readAs.fields
      methods := readAs.methods
      attributes := readAs.attributes }

/-- A class with a field, and with a method of one parameter that only returns. The
class, the field and the method have all bits set, defined as flags or not. -/
def sampleImage : Image where
  minorVersion := 0
  majorVersion := 61
  constants := [.utf8 "Code", .long 7, .classInfo 1, .utf8 "MethodParameters"]
  flags := 0xFFFF
  thisClass := 4
  superClass := 0
  interfaces := [4]
  fields := [⟨0xFFFF, 1, 1, []⟩]
  methods := [⟨0xFFFF, 1, 1,
    [.node 1 "Code"
      [.plain (.short 0), .plain (.short 1), .plain (.bytes [0xB1]),
        .entries .exceptionHandler [[.short 0, .short 1, .short 0, .short 4]], .attributes []] [],
     .node 5 "MethodParameters" [.entries .methodParameter [[.short 1, .short 0x0010]]] []]⟩]
  attributes := []

theorem sampleImage_fits : sampleImage.Fits := by
  have code : structureOf "Code" =
      [.uint16, .uint16, .byteArray, .entries .exceptionHandler, .attributes] := rfl
  have parameters : structureOf "MethodParameters" = [.entries .methodParameter] := rfl
  have named : sampleImage.Named 1 "Code" := List.mem_cons_self
  have named' : sampleImage.Named 5 "MethodParameters" := by
    unfold Image.Named
    decide
  have size : sampleImage.encode.length < 2 ^ 32 := by decide +kernel
  refine ⟨?_, by decide, ⟨by decide, by decide, ?_, by decide, ?_, by decide, trivial, by decide⟩,
    size⟩
  · intro content member
    simp only [sampleImage, List.mem_cons, List.not_mem_nil, or_false] at member
    rcases member with rfl | rfl | rfl | rfl
    · change (ModifiedUtf8.encode "Code").length < 2 ^ 16
      decide
    · trivial
    · trivial
    · change (ModifiedUtf8.encode "MethodParameters").length < 2 ^ 16
      decide
  · intro member found
    cases List.mem_singleton.mp found
    exact ⟨by decide, trivial, by decide⟩
  · intro member found
    cases List.mem_singleton.mp found
    refine ⟨by decide, ?_, by decide⟩
    simp [TreesFit, Tree.Fits, FieldsFit, Field.Fits, Field.type, Plain.type, Plain.Fits,
      Record.Fits, fieldsOf, code, parameters, named, named', encodeFields, Field.encode,
      encodeTrees, Record.encode, Plain.encode, length_digits]

/-- The sample is read back, with the defined bits among those that it sets. -/
theorem ofSource_sampleImage :
    ∃ c, ofSource ⟨sampleImage.encode.toArray⟩ = .ok c ∧ sampleImage.ReadAs c ∧
      c.flags.bits = 0xF631 ∧ c.fields.map (fun field => field.flags.bits) = [0x50DF] ∧
      c.methods.map (fun method => method.flags.bits) = [0x1DFF] := by
  obtain ⟨c, run, same⟩ := ofSource_encode sampleImage_fits
  exact ⟨c, run, same, congrArg AccessFlags.bits same.flags, map_bits_of_readAs same.fields,
    map_bits_of_readAs same.methods⟩

end ClassFormat.ClassFile
