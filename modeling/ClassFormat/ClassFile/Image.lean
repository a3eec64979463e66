import ClassFormat.Attribute.Tree
import ClassFormat.ClassFile.Decode
import ClassFormat.Constant.Content

/-!
# Images of class files

An image is a class file as one value, with its constants by content and its
attributes as trees. `Image.encode` is its written form.
-/
namespace ClassFormat.ClassFile

open BigEndian

structure MemberImage where
  flags : UInt16
  nameIndex : UInt16
  descriptorIndex : UInt16
  attributes : List Attribute.Tree

structure Image where
  minorVersion : UInt16
  majorVersion : UInt16
  constants : List Constant.Content
  flags : UInt16
  thisClass : UInt16
  superClass : UInt16
  interfaces : List UInt16
  fields : List MemberImage
  methods : List MemberImage
  attributes : List Attribute.Tree

/-- A two-byte count and the attributes. -/
def encodeAttributes (attributes : List Attribute.Tree) : List UInt8 :=
  digits 2 attributes.length ++ Attribute.encodeTrees attributes

def MemberImage.encode (member : MemberImage) : List UInt8 :=
  digits 2 member.flags.toNat ++ digits 2 member.nameIndex.toNat ++
    digits 2 member.descriptorIndex.toNat ++ encodeAttributes member.attributes

namespace Image

def encodeHeader (image : Image) : List UInt8 :=
  digits 4 magic ++ digits 2 image.minorVersion.toNat ++ digits 2 image.majorVersion.toNat ++
    digits 2 (Constant.totalWidth image.constants + 1)

def encodeInfo (image : Image) : List UInt8 :=
  digits 2 image.flags.toNat ++ digits 2 image.thisClass.toNat ++
    digits 2 image.superClass.toNat ++ digits 2 image.interfaces.length ++
    image.interfaces.flatMap fun slot => digits 2 slot.toNat

/-- A two-byte count and the members. -/
def encodeMembers (members : List MemberImage) : List UInt8 :=
  digits 2 members.length ++ members.flatMap MemberImage.encode

def encode (image : Image) : List UInt8 :=
  image.encodeHeader ++ Constant.encodeAll image.constants ++ image.encodeInfo ++
    encodeMembers image.fields ++ encodeMembers image.methods ++
    encodeAttributes image.attributes

end Image

end ClassFormat.ClassFile
