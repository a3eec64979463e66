import ClassFormat.Proofs.ClassFile.Body
import ClassFormat.Proofs.ClassFile.Parts
import ClassFormat.Proofs.ClassFile.RoundTrip
import ClassFormat.Proofs.Constant.Rows

/-!
# The pieces of a class file

A class file keeps where its constants and its members stand, as an offset and a
length each, and hands out the bytes from there. Put behind each other, with the
counts between them, these pieces are the bytes of the file, without a gap.
-/
namespace ClassFormat.ClassFile

open Attribute BigEndian

/-- An attribute that is not taken apart. -/
structure RawAttribute where
  nameIndex : UInt16
  payload : List UInt8

/-- A field or a method whose attributes are not taken apart. -/
structure RawMember where
  flags : UInt16
  nameIndex : UInt16
  descriptorIndex : UInt16
  attributes : List RawAttribute

/-- The pieces of a class file, in the order in which they stand. -/
structure Tiling where
  header : Header
  constants : List UInt8
  info : Info
  fields : List (List UInt8)
  methods : List (List UInt8)
  attributes : List RawAttribute

namespace RawAttribute

/-- A header of six bytes, which has the length in it, and as many bytes. -/
def encode (raw : RawAttribute) : List UInt8 :=
  digits 2 raw.nameIndex.toNat ++ digits 4 raw.payload.length ++ raw.payload

/-- Whether the attribute can be the one behind a reference: its name is that of
the table. -/
structure Of (constants : Constant.Pool) (raw : RawAttribute) (reference : Reference String) :
    Prop where
  length : raw.payload.length < 2 ^ 32
  name : ∃ name, constants.utf8 raw.nameIndex.toNat = .ok name ∧ reference.table = some name

end RawAttribute

namespace RawMember

def encode (raw : RawMember) : List UInt8 :=
  digits 2 raw.flags.toNat ++ digits 2 raw.nameIndex.toNat ++ digits 2 raw.descriptorIndex.toNat ++
    digits 2 raw.attributes.length ++ raw.attributes.flatMap RawAttribute.encode

/-- Whether these are the bytes of a member, with a record for every one of its
attributes and no other. -/
structure Of (source : Source) (constants : Constant.Pool) (place : FlagPlace) (raw : RawMember)
    (member : Member) : Prop where
  flags : member.flags = ⟨place, raw.flags &&& place.defined⟩
  nameIndex : member.nameIndex = raw.nameIndex
  descriptorIndex : member.descriptorIndex = raw.descriptorIndex
  count : member.attributes.length < 2 ^ 16
  attributes : List.Forall₂ (RawAttribute.Of constants) raw.attributes member.attributes
  data : member.data source = .ok raw.encode

end RawMember

/-- Whether the members stand one behind the other from an offset on. -/
def Adjoin : Nat → List Member → Prop
  | _, [] => True
  | start, member :: rest => member.offset = start ∧ Adjoin (start + member.length) rest

namespace Tiling

/-- All pieces, and the counts in front of the lists. -/
def bytes (tiling : Tiling) : List UInt8 :=
  tiling.header.encode ++ (tiling.constants ++ (tiling.info.encode ++
    (digits 2 tiling.fields.length ++ tiling.fields.flatten ++
      (digits 2 tiling.methods.length ++ tiling.methods.flatten ++
        (digits 2 tiling.attributes.length ++ tiling.attributes.flatMap RawAttribute.encode)))))

/-- Where the first field stands. -/
def fieldOffset (tiling : Tiling) : Nat :=
  tiling.header.encode.length + tiling.constants.length + tiling.info.encode.length + 2

/-- Where the first method stands. -/
def methodOffset (tiling : Tiling) : Nat :=
  tiling.fieldOffset + tiling.fields.flatten.length + 2

/-- Whether these are the pieces of a class file, and its source begins with
them. -/
structure Of (source : Source) (tiling : Tiling) (c : ClassFile) : Prop where
  minorVersion : c.minorVersion = tiling.header.minorVersion
  majorVersion : c.majorVersion = tiling.header.majorVersion
  headerLength : tiling.header.encode.length = 10
  constants : c.constants.data source = .ok tiling.constants
  constantOffset : c.constants.offset = tiling.header.encode.length
  flags : c.flags = ⟨.classFile, tiling.info.flags &&& 0xF631⟩
  thisClass : c.thisClass = tiling.info.thisClass
  superClass : c.superClass = tiling.info.superClass
  interfaces : c.interfaces = tiling.info.interfaces
  infoLength : tiling.info.encode.length = 8 + 2 * c.interfaces.length
  fields : c.fields.mapM (Member.data · source) = .ok tiling.fields
  fieldOffset : Adjoin tiling.fieldOffset c.fields
  methods : c.methods.mapM (Member.data · source) = .ok tiling.methods
  methodOffset : Adjoin tiling.methodOffset c.methods
  attributes : List.Forall₂ (RawAttribute.Of c.constants) tiling.attributes c.attributes
  counts : c.interfaces.length < 2 ^ 16 ∧ c.fields.length < 2 ^ 16 ∧
    c.methods.length < 2 ^ 16 ∧ c.attributes.length < 2 ^ 16
  bytes : tiling.bytes <+: source.bytes.toList

end Tiling

theorem Info.length_encode (info : Info) :
    info.encode.length = 8 + 2 * info.interfaces.length := by
  simp [Info.encode, Nat.mul_comm]
  omega

/-- The attribute of a tree, as it is written. -/
def RawAttribute.ofTree (tree : Tree) : RawAttribute := ⟨tree.nameIndex, tree.payload⟩

def RawMember.ofImage (image : MemberImage) : RawMember where
  flags := image.flags
  nameIndex := image.nameIndex
  descriptorIndex := image.descriptorIndex
  attributes := image.attributes.map .ofTree

theorem encodeTrees_eq_flatMap (trees : List Tree) :
    encodeTrees trees = (trees.map RawAttribute.ofTree).flatMap RawAttribute.encode := by
  induction trees with
  | nil => rfl
  | cons tree trees ih =>
      rw [encodeTrees_cons, ih]
      rfl

theorem RawMember.encode_ofImage (image : MemberImage) :
    (RawMember.ofImage image).encode = image.encode := by
  simp [RawMember.encode, RawMember.ofImage, MemberImage.encode, encodeAttributes,
    encodeTrees_eq_flatMap]

section Pieces

variable {source : Source} {constants : Constant.Pool} {store : Store String} {place : FlagPlace}

/-- The references to trees that were stored name the attributes in order. -/
theorem rawAttributes_of {trees : List Tree} {references : List (Reference String)}
    (fits : TreesFit (Named constants) trees) (stored : TreesStored store trees references) :
    List.Forall₂ (RawAttribute.Of constants) (trees.map .ofTree) references := by
  induction trees generalizing references with
  | nil =>
      cases references with
      | nil => exact .nil
      | cons => exact stored.elim
  | cons tree trees ih =>
      cases references with
      | nil => exact stored.elim
      | cons reference references =>
          obtain ⟨nameIndex, name, fields, unread⟩ := tree
          obtain ⟨⟨named, -, length, -⟩, fits⟩ := fits
          obtain ⟨⟨table, -⟩, stored⟩ := stored
          exact .cons ⟨length, name, named, table⟩ (ih fits stored)

theorem rawMember_of {image : MemberImage} {member : Member} (fits : image.Fits (Named constants))
    (readAs : image.ReadAs place source store member) :
    (RawMember.ofImage image).Of source constants place member := by
  have attributes := rawAttributes_of fits.attributes readAs.attributes
  refine ⟨readAs.flags, readAs.nameIndex, readAs.descriptorIndex, ?_, attributes, ?_⟩
  · rw [← attributes.length_eq, List.length_map]
    exact fits.count
  · rw [RawMember.encode_ofImage]
    exact readAs.data

theorem exists_rawMember {images : List MemberImage} {members : List Member}
    (fits : ∀ image ∈ images, image.Fits (Named constants))
    (readAs : List.Forall₂ (fun image member => image.ReadAs place source store member)
      images members) :
    ∀ member ∈ members, ∃ raw : RawMember, raw.Of source constants place member := by
  induction readAs with
  | nil => simp
  | cons first _ ih =>
      obtain ⟨fit, fits⟩ := List.forall_mem_cons.mp fits
      exact List.forall_mem_cons.mpr ⟨⟨_, rawMember_of fit first⟩, ih fits⟩

theorem mapM_data_of_readAs {images : List MemberImage} {members : List Member}
    (readAs : List.Forall₂ (fun image member => image.ReadAs place source store member)
      images members) :
    members.mapM (Member.data · source) = .ok (images.map MemberImage.encode) := by
  induction readAs with
  | nil => rfl
  | cons first _ ih =>
      rw [List.mapM_cons, first.data, ih]
      rfl

/-- Members that are planted in turn stand behind each other. -/
theorem adjoin_of_plantMembers {images : List MemberImage} {offset : Nat} {pool pool' : Pool}
    {members : List Member} (planted : plantMembers place offset images pool = .ok members pool') :
    Adjoin offset members := by
  induction images generalizing offset pool members with
  | nil =>
      obtain ⟨rfl, -⟩ := pure_eq_ok.mp planted
      trivial
  | cons image images ih =>
      obtain ⟨references, r, -, h⟩ := bind_eq_ok.mp planted
      obtain ⟨rest, u, others, done⟩ := bind_eq_ok.mp h
      obtain ⟨rfl, rfl⟩ := pure_eq_ok.mp done
      exact ⟨rfl, ih others⟩

theorem BodyImage.adjoin_of_plant {image : BodyImage} {offset : Nat} {pool pool' : Pool}
    {body : Body} (planted : image.plant offset pool = .ok body pool') :
    Adjoin (offset + image.info.encode.length + 2) body.fields ∧
      Adjoin (offset + image.info.encode.length + (Image.encodeMembers image.fields).length + 2)
        body.methods := by
  obtain ⟨fields, r, plantFields, h⟩ := bind_eq_ok.mp planted
  obtain ⟨methods, u, plantMethods, h⟩ := bind_eq_ok.mp h
  obtain ⟨references, v, -, done⟩ := bind_eq_ok.mp h
  obtain ⟨rfl, rfl⟩ := pure_eq_ok.mp done
  exact ⟨adjoin_of_plantMembers plantFields, adjoin_of_plantMembers plantMethods⟩

end Pieces

/-- The pieces that are written for a header, the bytes of the constants and the
image of what stands behind them. -/
def Tiling.ofImage (header : Header) (constants : List UInt8) (image : BodyImage) : Tiling where
  header := header
  constants := constants
  info := image.info
  fields := image.fields.map MemberImage.encode
  methods := image.methods.map MemberImage.encode
  attributes := image.attributes.map .ofTree

theorem Tiling.bytes_ofImage (header : Header) (constants : List UInt8) (image : BodyImage) :
    (Tiling.ofImage header constants image).bytes =
      header.encode ++ (constants ++ image.encode) := by
  simp [Tiling.bytes, Tiling.ofImage, BodyImage.encode, Image.encodeMembers, encodeAttributes,
    encodeTrees_eq_flatMap, List.flatMap_def]

/-- The constants that were read are bytes between two offsets. -/
theorem exists_data_of_read {source : Source} (small : source.size < 2 ^ 32) {count start : Nat}
    (inside : start ≤ source.size) {pool : Constant.Pool}
    (ok : (Constant.Pool.read source count start).result = .ok pool) :
    ∃ bytes, pool.data source = .ok bytes ∧ source.Holds start bytes ∧ pool.offset = start ∧
      (Constant.Pool.read source count start).offset = start + bytes.length := by
  obtain ⟨bytes, -, -, holds, moved, -⟩ := Constant.exists_rows_of_read small ok
  obtain ⟨t, -, -, rfl⟩ := Constant.Pool.exists_run_of_read ok
  refine ⟨bytes, ?_, holds, rfl, moved⟩
  rw [Constant.Pool.data_of_read ok, moved, Nat.add_sub_cancel_left]
  exact Source.slice_eq_ok.mpr ⟨rfl, holds.fits (.inl inside), holds⟩

/-- The pieces of a class file tile its bytes. -/
theorem ofSource_tiled {source : Source} (small : source.size < 2 ^ 32) {c : ClassFile}
    (ok : ofSource source = .ok c) :
    ∃ tiling : Tiling, tiling.Of source c ∧
      (∀ member ∈ c.fields, ∃ raw : RawMember, raw.Of source c.constants .field member) ∧
      ∀ member ∈ c.methods, ∃ raw : RawMember, raw.Of source c.constants .method member := by
  obtain ⟨parts, whole, rfl⟩ := ofSource_eq_ok.mp ok
  obtain ⟨header, constants, ⟨info, fields, methods, references⟩, pool, stop⟩ := parts
  obtain ⟨readHeader, readConstants, readBody⟩ := readParts_eq_ok.mp whole
  dsimp only at readHeader readConstants readBody
  have atHeader := (readHeader_eq_ok small).mp readHeader
  have inside := atHeader.fits (.inl (Nat.zero_le _))
  rw [Header.length_encode, Nat.zero_add] at inside
  obtain ⟨constantBytes, data, atConstants, start, moved⟩ :=
    exists_data_of_read small inside readConstants
  obtain ⟨image, fits, atBody, -, planted⟩ := (readBody_eq_ok small).mp readBody
  rw [moved] at atBody planted
  have readAs := image.plant_readAs fits atBody planted
  obtain ⟨adjoinFields, adjoinMethods⟩ := BodyImage.adjoin_of_plant planted
  obtain ⟨rfl, readFields, readMethods, stored⟩ := readAs
  have attributes : List.Forall₂ (RawAttribute.Of constants) (image.attributes.map .ofTree)
      references := rawAttributes_of fits.attributes stored
  have attributeCount : references.length < 2 ^ 16 := by
    rw [← attributes.length_eq, List.length_map]
    exact fits.attributeCount
  have encodeMembers (images : List MemberImage) : (Image.encodeMembers images).length =
      2 + (images.map MemberImage.encode).flatten.length := by
    simp [Image.encodeMembers, List.flatMap_def]
  refine ⟨.ofImage header constantBytes image, ?_, exists_rawMember fits.fields readFields,
    exists_rawMember fits.methods readMethods⟩
  exact
    { minorVersion := rfl
      majorVersion := rfl
      headerLength := header.length_encode
      constants := data
      constantOffset := start.trans header.length_encode.symm
      flags := AccessFlags.ofBits_eq .classFile _
      thisClass := rfl
      superClass := rfl
      interfaces := rfl
      infoLength := image.info.length_encode
      fields := mapM_data_of_readAs readFields
      fieldOffset := by
        rw [← header.length_encode] at adjoinFields
        exact adjoinFields
      methods := mapM_data_of_readAs readMethods
      methodOffset := by
        rw [← header.length_encode, encodeMembers, ← Nat.add_assoc] at adjoinMethods
        exact adjoinMethods
      attributes := attributes
      counts := ⟨fits.interfaces, readFields.length_eq ▸ fits.fieldCount,
        readMethods.length_eq ▸ fits.methodCount, attributeCount⟩
      bytes := by
        have holds : source.Holds 0 (header.encode ++ (constantBytes ++ image.encode)) := by
          rw [Source.holds_append, Source.holds_append, header.length_encode, Nat.zero_add]
          exact ⟨atHeader, atConstants, atBody⟩
        rw [Tiling.bytes_ofImage]
        exact holds }

/-- The sample is cut into its pieces. -/
theorem ofSource_tiled_sampleImage :
    ∃ c, ofSource ⟨sampleImage.encode.toArray⟩ = .ok c ∧
      ∃ tiling : Tiling, tiling.Of ⟨sampleImage.encode.toArray⟩ c ∧
        (∀ member ∈ c.fields, ∃ raw : RawMember,
          raw.Of ⟨sampleImage.encode.toArray⟩ c.constants .field member) ∧
        ∀ member ∈ c.methods, ∃ raw : RawMember,
          raw.Of ⟨sampleImage.encode.toArray⟩ c.constants .method member := by
  have small : Source.size ⟨sampleImage.encode.toArray⟩ < 2 ^ 32 := by decide +kernel
  have read : (ofSource ⟨sampleImage.encode.toArray⟩).toOption.isSome := by decide +kernel
  cases ok : ofSource ⟨sampleImage.encode.toArray⟩ with
  | error e =>
      rw [ok] at read
      cases read
  | ok c => exact ⟨c, rfl, ofSource_tiled small ok⟩

end ClassFormat.ClassFile
