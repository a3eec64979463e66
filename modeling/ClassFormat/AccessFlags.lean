/-!
# Access flags

Sixteen bits, of which each place in a class file defines some. Bits that are
not defined there are dropped.
-/
namespace ClassFormat

/-- Where access flags stand. -/
inductive FlagPlace where
  | classFile | field | method | innerClass | parameter
deriving Repr, DecidableEq

/-- The defined flags, in the order in which they are listed. -/
def FlagPlace.flags : FlagPlace → List (String × UInt16)
  | .classFile =>
    [("Public", 0x0001), ("Final", 0x0010), ("Super", 0x0020), ("Interface", 0x0200),
     ("Abstract", 0x0400), ("Synthetic", 0x1000), ("Annotation", 0x2000), ("Enum", 0x4000),
     ("Module", 0x8000)]
  | .field =>
    [("Public", 0x0001), ("Private", 0x0002), ("Protected", 0x0004), ("Static", 0x0008),
     ("Final", 0x0010), ("Volatile", 0x0040), ("Transient", 0x0080), ("Synthetic", 0x1000),
     ("Enum", 0x4000)]
  | .method =>
    [("Public", 0x0001), ("Private", 0x0002), ("Protected", 0x0004), ("Static", 0x0008),
     ("Final", 0x0010), ("Synchronized", 0x0020), ("Bridge", 0x0040), ("Varargs", 0x0080),
     ("Native", 0x0100), ("Abstract", 0x0400), ("Strict", 0x0800), ("Synthetic", 0x1000)]
  | .innerClass =>
    [("Public", 0x0001), ("Private", 0x0002), ("Protected", 0x0004), ("Static", 0x0008),
     ("Final", 0x0010), ("Interface", 0x0200), ("Abstract", 0x0400), ("Synthetic", 0x1000),
     ("Annotation", 0x2000), ("Enum", 0x4000)]
  | .parameter => [("Final", 0x0010), ("Synthetic", 0x1000), ("Mandated", 0x8000)]

/-- All defined bits. -/
def FlagPlace.mask (place : FlagPlace) : UInt16 :=
  place.flags.foldl (fun mask flag => mask ||| flag.2) 0

/-- The defined bits as one number. -/
def FlagPlace.defined : FlagPlace → UInt16
  | .classFile => 0xF631
  | .field => 0x50DF
  | .method => 0x1DFF
  | .innerClass => 0x761F
  | .parameter => 0x9010

theorem FlagPlace.mask_eq_defined (place : FlagPlace) : place.mask = place.defined := by
  cases place <;> decide

structure AccessFlags where
  place : FlagPlace
  bits : UInt16
deriving Repr, DecidableEq

namespace AccessFlags

/-- The defined ones among the given bits. -/
def ofBits (place : FlagPlace) (bits : UInt16) : AccessFlags :=
  ⟨place, bits &&& place.mask⟩

theorem ofBits_eq (place : FlagPlace) (bits : UInt16) :
    ofBits place bits = ⟨place, bits &&& place.defined⟩ := by
  rw [ofBits, place.mask_eq_defined]

/-- The names of the flags that are set. -/
def names (flags : AccessFlags) : List String :=
  (flags.place.flags.filter fun flag => flags.bits &&& flag.2 ≠ 0).map Prod.fst

def display (flags : AccessFlags) : String :=
  "FlagSet(" ++ " | ".intercalate flags.names ++ ")"

end AccessFlags

end ClassFormat
