import Mathlib.Data.List.Forall2
import ClassFormat.Proofs.Attribute.Rows
import ClassFormat.Proofs.ClassFile.Records

/-!
# Members and the body of a class file

The laws of attribute lists carry over to fields and methods, and to all that
stands behind the constants: it is read off its written form, and what is left
of reading without the bytes is planting the attributes.
-/
namespace ClassFormat.ClassFile

open Attribute BigEndian

namespace MemberImage

def header (image : MemberImage) : MemberHeader :=
  ⟨image.flags, image.nameIndex, image.descriptorIndex, UInt16.ofNat image.attributes.length⟩

/-- Whether a member can be written, given which strings the constants are. -/
structure Fits (named : Nat → String → Prop) (image : MemberImage) : Prop where
  count : image.attributes.length < 2 ^ 16
  attributes : TreesFit named image.attributes
  depth : treesDepth image.attributes ≤ maxNesting

/-- The member that is read at an offset. -/
def member (image : MemberImage) (place : FlagPlace) (offset : Nat)
    (references : List (Reference String)) : Member where
  flags := .ofBits place image.flags
  nameIndex := image.nameIndex
  descriptorIndex := image.descriptorIndex
  attributes := references
  offset := offset
  length := image.encode.length

theorem encode_eq {image : MemberImage} (count : image.attributes.length < 2 ^ 16) :
    image.encode = image.header.encode ++ encodeTrees image.attributes := by
  have len : (UInt16.ofNat image.attributes.length).toNat = image.attributes.length :=
    UInt16.toNat_ofNat_of_lt' count
  simp only [encode, encodeAttributes, header, MemberHeader.encode, len, List.append_assoc]

end MemberImage

theorem MemberHeader.length_encode (header : MemberHeader) : header.encode.length = 8 := by
  simp [MemberHeader.encode]

/-- What reading members does to the pool. -/
def plantMembers (place : FlagPlace) (offset : Nat) : List MemberImage → Planter (List Member)
  | [] => pure []
  | image :: rest => do
    let references ← plantTrees (offset + 8) image.attributes
    let members ← plantMembers place (offset + image.encode.length) rest
    return image.member place offset references :: members

section Members

variable {source : Source} {constants : Constant.Pool} {place : FlagPlace} {s t : Scan}

theorem readMember_eq (source : Source) (constants : Constant.Pool) (place : FlagPlace) :
    readMember source constants place = (do
      let start ← ScanReader.currentOffset
      let header ← Decode.record .plain source MemberHeader.read
      let attributes ← readAttributes source constants header.attributeCount.toNat
      let stop ← ScanReader.currentOffset
      return { flags := .ofBits place header.flags, nameIndex := header.nameIndex
               descriptorIndex := header.descriptorIndex, attributes := attributes
               offset := start, length := stop - start }) := rfl

theorem readMember_eq_ok (small : source.size < 2 ^ 32) {member : Member} :
    readMember source constants place s = .ok member t ↔
      ∃ image : MemberImage, image.Fits (Named constants) ∧ source.Holds s.offset image.encode ∧
        t.offset = s.offset + image.encode.length ∧
        ∃ references, plantTrees (s.offset + 8) image.attributes s.pool = .ok references t.pool ∧
          member = image.member place s.offset references := by
  rw [readMember_eq]
  simp only [bind_eq_ok, ScanReader.currentOffset_eq_ok, pure_eq_ok, readMemberHeader_eq_ok small,
    readAttributes_eq_ok small]
  constructor
  · intro h
    obtain ⟨_, _, ⟨rfl, rfl⟩, header, _, ⟨holds, rfl⟩, references, r,
      ⟨trees, len, fits, depth, holds', moved, planted⟩, _, _, ⟨rfl, rfl⟩, rfl, rfl⟩ := h
    dsimp only at holds' moved planted
    rw [header.length_encode] at holds' moved planted
    let image : MemberImage := ⟨header.flags, header.nameIndex, header.descriptorIndex, trees⟩
    have count : trees.length < 2 ^ 16 := len ▸ header.attributeCount.toNat_lt
    have same : image.header = header := by
      simp only [image, MemberImage.header, len, UInt16.ofNat_toNat]
    have whole : image.encode = header.encode ++ encodeTrees trees := by
      rw [MemberImage.encode_eq count, same]
    have length : image.encode.length = 8 + (encodeTrees trees).length := by
      rw [whole, List.length_append, header.length_encode]
    refine ⟨image, ⟨count, fits, depth⟩, ?_, ?_, references, planted, ?_⟩
    · rw [whole, Source.holds_append, header.length_encode]
      exact ⟨holds, holds'⟩
    · rw [moved, length, Nat.add_assoc]
    · rw [MemberImage.member, length, moved, Nat.add_assoc, Nat.add_sub_cancel_left]
  · intro h
    obtain ⟨image, ⟨count, fits, depth⟩, holds, moved, references, planted, rfl⟩ := h
    have len : image.header.attributeCount.toNat = image.attributes.length :=
      UInt16.toNat_ofNat_of_lt' count
    have length : image.encode.length = 8 + (encodeTrees image.attributes).length := by
      rw [MemberImage.encode_eq count, List.length_append, image.header.length_encode]
    have parts := holds
    rw [MemberImage.encode_eq count, Source.holds_append, image.header.length_encode] at parts
    rw [length, ← Nat.add_assoc] at moved
    refine ⟨s.offset, s, ⟨rfl, rfl⟩, image.header, _, ⟨parts.1, rfl⟩, references, t, ?_, t.offset,
      t,
      ⟨rfl, rfl⟩, ?_, rfl⟩
    · dsimp only
      rw [image.header.length_encode]
      exact ⟨image.attributes, len.symm, fits, depth, parts.2, moved, planted⟩
    · rw [MemberImage.member, length, moved, Nat.add_assoc, Nat.add_sub_cancel_left]
      rfl

theorem readMembers_eq_ok (small : source.size < 2 ^ 32) {count : Nat} {members : List Member} :
    collect count (readMember source constants place) s = .ok members t ↔
      ∃ images : List MemberImage, images.length = count ∧
        (∀ image ∈ images, image.Fits (Named constants)) ∧
        source.Holds s.offset (images.flatMap MemberImage.encode) ∧
        t.offset = s.offset + (images.flatMap MemberImage.encode).length ∧
        plantMembers place s.offset images s.pool = .ok members t.pool := by
  induction count generalizing s members with
  | zero =>
      rw [collect_zero_eq_ok]
      constructor
      · intro h
        obtain ⟨rfl, rfl⟩ := h
        exact ⟨[], rfl, nofun, List.nil_prefix, rfl, rfl⟩
      · intro h
        obtain ⟨images, len, -, -, moved, planted⟩ := h
        cases List.length_eq_zero_iff.mp len
        obtain ⟨rfl, pools⟩ := pure_eq_ok.mp planted
        refine ⟨rfl, ?_⟩
        obtain ⟨_, _⟩ := s
        obtain ⟨_, _⟩ := t
        dsimp only at pools moved
        rw [pools, moved]
        rfl
  | succ count ih =>
      rw [collect_succ_eq_ok]
      constructor
      · intro h
        obtain ⟨member, r, rest, first, others, rfl⟩ := h
        obtain ⟨image, fit, holds, moved, references, planted, rfl⟩ :=
          (readMember_eq_ok small).mp first
        obtain ⟨images, len, fits, holds', moved', planted'⟩ := ih.mp others
        rw [moved] at holds' moved' planted'
        refine ⟨image :: images, by rw [List.length_cons, len],
          List.forall_mem_cons.mpr ⟨fit, fits⟩, ?_, ?_, ?_⟩
        · exact Source.holds_append.mpr ⟨holds, holds'⟩
        · rw [moved', List.flatMap_cons, List.length_append, Nat.add_assoc]
        · refine bind_eq_ok.mpr ⟨references, r.pool, planted, ?_⟩
          exact bind_eq_ok.mpr ⟨rest, t.pool, planted', rfl⟩
      · intro h
        obtain ⟨images, len, fits, holds, moved, planted⟩ := h
        cases images with
        | nil => cases len
        | cons image images =>
            obtain ⟨fit, fits⟩ := List.forall_mem_cons.mp fits
            obtain ⟨holds, holds'⟩ := Source.holds_append.mp holds
            obtain ⟨references, pool, first, rest⟩ := bind_eq_ok.mp planted
            obtain ⟨members, _, others, done⟩ := bind_eq_ok.mp rest
            obtain ⟨rfl, rfl⟩ := pure_eq_ok.mp done
            rw [List.flatMap_cons, List.length_append, ← Nat.add_assoc] at moved
            refine ⟨_, ⟨pool, s.offset + image.encode.length⟩, members, ?_, ?_, rfl⟩
            · exact (readMember_eq_ok small).mpr ⟨image, fit, holds, rfl, references, first, rfl⟩
            · exact ih.mpr ⟨images, Nat.succ.inj len, fits, holds', moved, others⟩

end Members

/-- The part of an image behind the constants. -/
structure BodyImage where
  info : Info
  fields : List MemberImage
  methods : List MemberImage
  attributes : List Tree

namespace BodyImage

def encode (image : BodyImage) : List UInt8 :=
  image.info.encode ++ (Image.encodeMembers image.fields ++
    (Image.encodeMembers image.methods ++ encodeAttributes image.attributes))

/-- Whether the counts can be written and the attributes have the structure of
their names. -/
structure Fits (named : Nat → String → Prop) (image : BodyImage) : Prop where
  interfaces : image.info.interfaces.length < 2 ^ 16
  fieldCount : image.fields.length < 2 ^ 16
  fields : ∀ member ∈ image.fields, member.Fits named
  methodCount : image.methods.length < 2 ^ 16
  methods : ∀ member ∈ image.methods, member.Fits named
  attributeCount : image.attributes.length < 2 ^ 16
  attributes : TreesFit named image.attributes
  depth : treesDepth image.attributes ≤ maxNesting

/-- What reading the body does to the pool. -/
def plant (offset : Nat) (image : BodyImage) : Planter Body := do
  let fieldStart := offset + image.info.encode.length
  let methodStart := fieldStart + (Image.encodeMembers image.fields).length
  let attributeStart := methodStart + (Image.encodeMembers image.methods).length
  let fields ← plantMembers .field (fieldStart + 2) image.fields
  let methods ← plantMembers .method (methodStart + 2) image.methods
  let attributes ← plantTrees (attributeStart + 2) image.attributes
  return ⟨image.info, fields, methods, attributes⟩

end BodyImage

section Body

variable {source : Source} {constants : Constant.Pool} {s t : Scan}

theorem readCountedMembers_eq_ok (small : source.size < 2 ^ 32) {place : FlagPlace}
    {members : List Member} :
    (do
      let count ← readCount source
      collect count (readMember source constants place)) s = .ok members t ↔
      ∃ images : List MemberImage, images.length < 2 ^ 16 ∧
        (∀ image ∈ images, image.Fits (Named constants)) ∧
        source.Holds s.offset (Image.encodeMembers images) ∧
        t.offset = s.offset + (Image.encodeMembers images).length ∧
        plantMembers place (s.offset + 2) images s.pool = .ok members t.pool := by
  simp only [bind_eq_ok, readCount_eq_ok small, readMembers_eq_ok small, Image.encodeMembers,
    Source.holds_append, length_digits, List.length_append, ← Nat.add_assoc]
  constructor
  · intro h
    obtain ⟨_, _, ⟨bound, holds, rfl⟩, images, rfl, fits, holds', moved, planted⟩ := h
    exact ⟨images, bound, fits, ⟨holds, holds'⟩, moved, planted⟩
  · intro h
    obtain ⟨images, bound, fits, ⟨holds, holds'⟩, moved, planted⟩ := h
    exact ⟨_, _, ⟨bound, holds, rfl⟩, images, rfl, fits, holds', moved, planted⟩

theorem readCountedAttributes_eq_ok (small : source.size < 2 ^ 32)
    {references : List (Reference String)} :
    (do
      let count ← readCount source
      readAttributes source constants count) s = .ok references t ↔
      ∃ trees : List Tree, trees.length < 2 ^ 16 ∧ TreesFit (Named constants) trees ∧
        treesDepth trees ≤ maxNesting ∧ source.Holds s.offset (encodeAttributes trees) ∧
        t.offset = s.offset + (encodeAttributes trees).length ∧
        plantTrees (s.offset + 2) trees s.pool = .ok references t.pool := by
  simp only [bind_eq_ok, readCount_eq_ok small, readAttributes_eq_ok small, encodeAttributes,
    Source.holds_append, length_digits, List.length_append, ← Nat.add_assoc]
  constructor
  · intro h
    obtain ⟨_, _, ⟨bound, holds, rfl⟩, trees, rfl, fits, depth, holds', moved, planted⟩ := h
    exact ⟨trees, bound, fits, depth, ⟨holds, holds'⟩, moved, planted⟩
  · intro h
    obtain ⟨trees, bound, fits, depth, ⟨holds, holds'⟩, moved, planted⟩ := h
    exact ⟨_, _, ⟨bound, holds, rfl⟩, trees, rfl, fits, depth, holds', moved, planted⟩

/-- The body of a class file is read off its written form. -/
theorem readBody_eq_ok (small : source.size < 2 ^ 32) {body : Body} :
    readBody source constants s = .ok body t ↔
      ∃ image : BodyImage, image.Fits (Named constants) ∧ source.Holds s.offset image.encode ∧
        t.offset = s.offset + image.encode.length ∧
        image.plant s.offset s.pool = .ok body t.pool := by
  have grouped : readBody source constants = (do
      let info ← Decode.record .plain source Info.read
      let fields ← (do
        let count ← readCount source
        collect count (readMember source constants .field))
      let methods ← (do
        let count ← readCount source
        collect count (readMember source constants .method))
      let attributes ← (do
        let count ← readCount source
        readAttributes source constants count)
      return ⟨info, fields, methods, attributes⟩) := by
    simp only [bind_assoc]
    rfl
  rw [grouped]
  constructor
  · intro h
    obtain ⟨info, _, first, h⟩ := bind_eq_ok.mp h
    obtain ⟨fields, r, second, h⟩ := bind_eq_ok.mp h
    obtain ⟨methods, u, third, h⟩ := bind_eq_ok.mp h
    obtain ⟨references, v, fourth, done⟩ := bind_eq_ok.mp h
    obtain ⟨rfl, rfl⟩ := pure_eq_ok.mp done
    obtain ⟨interfaces, atInfo, rfl⟩ := (readInfo_eq_ok small).mp first
    obtain ⟨fieldImages, fieldCount, fieldsFit, atFields, toMethods, plantFields⟩ :=
      (readCountedMembers_eq_ok small).mp second
    obtain ⟨methodImages, methodCount, methodsFit, atMethods, toAttributes, plantMethods⟩ :=
      (readCountedMembers_eq_ok small).mp third
    obtain ⟨trees, count, treesFit, depth, atAttributes, toEnd, plantAttributes⟩ :=
      (readCountedAttributes_eq_ok small).mp fourth
    dsimp only at atFields toMethods plantFields
    rw [toMethods] at atMethods toAttributes plantMethods
    rw [toAttributes] at atAttributes toEnd plantAttributes
    refine ⟨⟨info, fieldImages, methodImages, trees⟩,
      ⟨interfaces, fieldCount, fieldsFit, methodCount, methodsFit, count, treesFit, depth⟩,
      ?_, ?_, ?_⟩
    · simp only [BodyImage.encode, Source.holds_append]
      exact ⟨atInfo, atFields, atMethods, atAttributes⟩
    · simp only [BodyImage.encode, List.length_append, toEnd, Nat.add_assoc]
    · refine bind_eq_ok.mpr ⟨fields, r.pool, plantFields, ?_⟩
      refine bind_eq_ok.mpr ⟨methods, u.pool, plantMethods, ?_⟩
      exact bind_eq_ok.mpr ⟨references, v.pool, plantAttributes, rfl⟩
  · intro h
    obtain ⟨image, fits, holds, moved, planted⟩ := h
    simp only [BodyImage.encode, Source.holds_append, List.length_append, ← Nat.add_assoc]
      at holds moved
    obtain ⟨atInfo, atFields, atMethods, atAttributes⟩ := holds
    obtain ⟨fields, pool, plantFields, h⟩ := bind_eq_ok.mp planted
    obtain ⟨methods, pool', plantMethods, h⟩ := bind_eq_ok.mp h
    obtain ⟨references, pool'', plantAttributes, done⟩ := bind_eq_ok.mp h
    obtain ⟨rfl, rfl⟩ := pure_eq_ok.mp done
    refine bind_eq_ok.mpr ⟨image.info, ⟨s.pool, s.offset + image.info.encode.length⟩,
      (readInfo_eq_ok small).mpr ⟨fits.interfaces, atInfo, rfl⟩, ?_⟩
    refine bind_eq_ok.mpr ⟨fields, ⟨pool, s.offset + image.info.encode.length +
      (Image.encodeMembers image.fields).length⟩, (readCountedMembers_eq_ok small).mpr
        ⟨image.fields, fits.fieldCount, fits.fields, atFields, rfl, plantFields⟩, ?_⟩
    refine bind_eq_ok.mpr ⟨methods, ⟨pool', s.offset + image.info.encode.length +
      (Image.encodeMembers image.fields).length + (Image.encodeMembers image.methods).length⟩,
      (readCountedMembers_eq_ok small).mpr
        ⟨image.methods, fits.methodCount, fits.methods, atMethods, rfl, plantMethods⟩, ?_⟩
    refine bind_eq_ok.mpr ⟨references, t, (readCountedAttributes_eq_ok small).mpr ?_, rfl⟩
    exact ⟨image.attributes, fits.attributeCount, fits.attributes, fits.depth, atAttributes, moved,
      plantAttributes⟩

end Body

/-- Whether a member of a class file is what an image says. -/
structure MemberImage.ReadAs (image : MemberImage) (place : FlagPlace) (source : Source)
    (store : Store String) (member : Member) : Prop where
  flags : member.flags = ⟨place, image.flags &&& place.defined⟩
  nameIndex : member.nameIndex = image.nameIndex
  descriptorIndex : member.descriptorIndex = image.descriptorIndex
  data : member.data source = .ok image.encode
  attributes : TreesStored store image.attributes member.attributes

theorem MemberImage.ReadAs.mono {image : MemberImage} {place : FlagPlace} {source : Source}
    {store store' : Store String} (grown : store.Extends store') {member : Member}
    (h : image.ReadAs place source store member) : image.ReadAs place source store' member :=
  ⟨h.flags, h.nameIndex, h.descriptorIndex, h.data, h.attributes.mono grown⟩

/-- Of the bits that members set, those that are defined are left. -/
theorem map_bits_of_readAs {place : FlagPlace} {source : Source} {store : Store String}
    {images : List MemberImage} {members : List Member}
    (read : List.Forall₂ (fun image member => image.ReadAs place source store member)
      images members) :
    members.map (fun member => member.flags.bits) =
      images.map fun image => image.flags &&& place.defined := by
  induction read with
  | nil => rfl
  | cons here _ ih => rw [List.map_cons, List.map_cons, ih, here.flags]

section Plant

variable {named : Nat → String → Prop} {source : Source} {place : FlagPlace} {pool pool' : Pool}

theorem MemberImage.encode_ne_nil (image : MemberImage) : image.encode ≠ [] := by
  simp [encode, digits]

theorem plantMembers_readAs {images : List MemberImage} (fits : ∀ image ∈ images, image.Fits named)
    {offset : Nat} (holds : source.Holds offset (images.flatMap MemberImage.encode))
    {members : List Member} (planted : plantMembers place offset images pool = .ok members pool') :
    pool.store.Extends pool'.store ∧
      List.Forall₂ (fun image member => image.ReadAs place source pool'.store member)
        images members := by
  induction images generalizing offset pool members with
  | nil =>
      obtain ⟨rfl, rfl⟩ := pure_eq_ok.mp planted
      exact ⟨.refl _, .nil⟩
  | cons image images ih =>
      obtain ⟨fit, fits⟩ := List.forall_mem_cons.mp fits
      obtain ⟨here, there⟩ := Source.holds_append.mp holds
      obtain ⟨references, r, first, h⟩ := bind_eq_ok.mp planted
      obtain ⟨rest, u, others, done⟩ := bind_eq_ok.mp h
      obtain ⟨rfl, rfl⟩ := pure_eq_ok.mp done
      obtain ⟨grown, stored⟩ := plantTrees_stored fit.attributes first
      obtain ⟨grown', readAs⟩ := ih fits there others
      have inside := here.fits (.inr image.encode_ne_nil)
      have data : Member.data (image.member place offset references) source = .ok image.encode :=
        Source.slice_eq_ok.mpr ⟨rfl, inside, here⟩
      exact ⟨grown.trans grown', .cons
        ⟨AccessFlags.ofBits_eq place image.flags, rfl, rfl, data, stored.mono grown'⟩ readAs⟩

/-- How many rows members add. -/
def membersRows (images : List MemberImage) : Nat :=
  (images.map fun image => treesRows image.attributes).sum

def BodyImage.rows (image : BodyImage) : Nat :=
  membersRows image.fields + (membersRows image.methods + treesRows image.attributes)

theorem plantMembers_adds {images : List MemberImage} (fits : ∀ image ∈ images, image.Fits named)
    (place : FlagPlace) (offset : Nat) :
    Planter.Adds (plantMembers place offset images) (membersRows images) := by
  induction images generalizing offset with
  | nil => exact .pure []
  | cons image images ih =>
      obtain ⟨fit, fits⟩ := List.forall_mem_cons.mp fits
      exact .bind (plantTrees_adds (offset + 8) fit.attributes) fun _ =>
        .bind (n := 0) (ih fits (offset + image.encode.length)) fun _ => .pure _

theorem BodyImage.plant_adds {image : BodyImage} (fits : image.Fits named) (offset : Nat) :
    Planter.Adds (image.plant offset) image.rows :=
  .bind (plantMembers_adds fits.fields _ _) fun _ =>
    .bind (plantMembers_adds fits.methods _ _) fun _ =>
      .bind (n := 0) (plantTrees_adds _ fits.attributes) fun _ => .pure _

theorem four_mul_membersRows_le {images : List MemberImage}
    (fits : ∀ image ∈ images, image.Fits named) :
    4 * membersRows images ≤ (images.flatMap MemberImage.encode).length := by
  induction images with
  | nil => exact Nat.zero_le _
  | cons image images ih =>
      obtain ⟨fit, fits⟩ := List.forall_mem_cons.mp fits
      have here := four_mul_treesRows_le fit.attributes
      have rest := ih fits
      have rows : membersRows (image :: images) =
        treesRows image.attributes + membersRows images := rfl
      rw [List.flatMap_cons, List.length_append, MemberImage.encode_eq fit.count,
        List.length_append, rows]
      omega

theorem BodyImage.four_mul_rows_le {image : BodyImage} (fits : image.Fits named) :
    4 * image.rows ≤ image.encode.length := by
  have fields := four_mul_membersRows_le fits.fields
  have methods := four_mul_membersRows_le fits.methods
  have attributes := four_mul_treesRows_le fits.attributes
  simp only [rows, encode, Image.encodeMembers, encodeAttributes, List.length_append]
  omega

/-- Whether the body of a class file is what an image says. -/
structure BodyImage.ReadAs (image : BodyImage) (source : Source) (store : Store String)
    (body : Body) : Prop where
  info : body.info = image.info
  fields : List.Forall₂ (fun image member => image.ReadAs .field source store member)
    image.fields body.fields
  methods : List.Forall₂ (fun image member => image.ReadAs .method source store member)
    image.methods body.methods
  attributes : TreesStored store image.attributes body.attributes

theorem BodyImage.plant_readAs {image : BodyImage} (fits : image.Fits named) {offset : Nat}
    (holds : source.Holds offset image.encode) {body : Body}
    (planted : image.plant offset pool = .ok body pool') :
    image.ReadAs source pool'.store body := by
  simp only [encode, Image.encodeMembers, Source.holds_append, List.length_append, length_digits]
    at holds
  obtain ⟨-, ⟨-, atFields⟩, ⟨-, atMethods⟩, -⟩ := holds
  obtain ⟨fields, r, plantFields, h⟩ := bind_eq_ok.mp planted
  obtain ⟨methods, u, plantMethods, h⟩ := bind_eq_ok.mp h
  obtain ⟨references, v, plantAttributes, done⟩ := bind_eq_ok.mp h
  obtain ⟨rfl, rfl⟩ := pure_eq_ok.mp done
  obtain ⟨-, readFields⟩ := plantMembers_readAs fits.fields atFields plantFields
  simp only [Image.encodeMembers, List.length_append, length_digits] at plantMethods
  obtain ⟨grown, readMethods⟩ := plantMembers_readAs fits.methods atMethods plantMethods
  obtain ⟨grown', stored⟩ := plantTrees_stored fits.attributes plantAttributes
  refine ⟨rfl, ?_, ?_, stored⟩
  · exact readFields.imp fun _ _ h => h.mono (grown.trans grown')
  · exact readMethods.imp fun _ _ h => h.mono grown'

end Plant

end ClassFormat.ClassFile
