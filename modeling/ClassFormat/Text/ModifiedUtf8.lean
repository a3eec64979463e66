/-!
# Modified UTF-8

Class files store strings in a variant of UTF-8 that has no zero byte and no
four-byte sequence: NUL is `C0 80`, and a supplementary character is a pair of
surrogates of three bytes each. `encode` writes that form. `decode` is more
generous: bytes that are standard UTF-8 as a whole are read as such, and only
the others are held to the modified form.
-/
namespace ClassFormat.ModifiedUtf8

def isContinuation (b : UInt8) : Bool :=
  0x80 ≤ b && b ≤ 0xBF

/-- Two bytes `110xxxxx 10xxxxxx`. -/
def twoBytes (a b : UInt8) : Nat :=
  a.toNat % 32 * 64 + b.toNat % 64

/-- Three bytes `1110xxxx 10xxxxxx 10xxxxxx`. -/
def threeBytes (a b c : UInt8) : Nat :=
  (a.toNat % 16 * 64 + b.toNat % 64) * 64 + c.toNat % 64

/-- Four bytes `11110xxx 10xxxxxx 10xxxxxx 10xxxxxx`. -/
def fourBytes (a b c d : UInt8) : Nat :=
  ((a.toNat % 8 * 64 + b.toNat % 64) * 64 + c.toNat % 64) * 64 + d.toNat % 64

/-- The character of a surrogate pair, from the last two bytes of each half. -/
def surrogatePair (b c e f : UInt8) : Nat :=
  0x10000 + (b.toNat % 16 * 64 + c.toNat % 64) * 1024 + (e.toNat % 16 * 64 + f.toNat % 64)

/-- Whether three bytes from `a b` on are neither overlong nor a surrogate. -/
def isThreeByteStart (a b : UInt8) : Bool :=
  if a = 0xE0 then 0xA0 ≤ b && b ≤ 0xBF
  else if a = 0xED then 0x80 ≤ b && b ≤ 0x9F
  else 0xE1 ≤ a && a ≤ 0xEF && isContinuation b

/-- Whether four bytes from `a b` on are neither overlong nor past `10FFFF`. -/
def isFourByteStart (a b : UInt8) : Bool :=
  if a = 0xF0 then 0x90 ≤ b && b ≤ 0xBF
  else if a = 0xF4 then 0x80 ≤ b && b ≤ 0x8F
  else 0xF1 ≤ a && a ≤ 0xF3 && isContinuation b

/-- Reads standard UTF-8 behind the characters already read, last one first. -/
def decodeStandard (read : List Char) : List UInt8 → Option (List Char)
  | [] => some read.reverse
  | a :: rest =>
    if a < 0x80 then decodeStandard (Char.ofNat a.toNat :: read) rest
    else if a < 0xE0 then
      match rest with
      | b :: rest =>
        if 0xC2 ≤ a && isContinuation b then
          decodeStandard (Char.ofNat (twoBytes a b) :: read) rest
        else none
      | [] => none
    else if a < 0xF0 then
      match rest with
      | b :: c :: rest =>
        if isThreeByteStart a b && isContinuation c then
          decodeStandard (Char.ofNat (threeBytes a b c) :: read) rest
        else none
      | _ => none
    else
      match rest with
      | b :: c :: d :: rest =>
        if isFourByteStart a b && isContinuation c && isContinuation d then
          decodeStandard (Char.ofNat (fourBytes a b c d) :: read) rest
        else none
      | _ => none

/-- Reads the modified form behind the characters already read, last one
first. -/
def decodeModified (read : List Char) : List UInt8 → Option (List Char)
  | [] => some read.reverse
  | a :: rest =>
    if a < 0x80 then
      if a = 0 then none else decodeModified (Char.ofNat a.toNat :: read) rest
    else if a < 0xE0 then
      match rest with
      | b :: rest =>
        if a = 0xC0 && b = 0x80 then decodeModified ('\x00' :: read) rest
        else if 0xC2 ≤ a && isContinuation b then
          decodeModified (Char.ofNat (twoBytes a b) :: read) rest
        else none
      | [] => none
    else
      match rest with
      | b :: c :: rest =>
        if isThreeByteStart a b && isContinuation c then
          decodeModified (Char.ofNat (threeBytes a b c) :: read) rest
        else
          match rest with
          | d :: e :: f :: rest =>
            if a = 0xED && 0xA0 ≤ b && b ≤ 0xAF && isContinuation c &&
                d = 0xED && 0xB0 ≤ e && e ≤ 0xBF && isContinuation f then
              decodeModified (Char.ofNat (surrogatePair b c e f) :: read) rest
            else none
          | _ => none
      | _ => none

def decode (bytes : List UInt8) : Option String :=
  match decodeStandard [] bytes with
  | some chars => some (String.ofList chars)
  | none => (decodeModified [] bytes).map String.ofList

/-- A lead byte with its marker bits, and a continuation byte. -/
def lead (marker n : Nat) : UInt8 := UInt8.ofNat (marker + n)

def continuation (n : Nat) : UInt8 := UInt8.ofNat (0x80 + n % 64)

/-- Three bytes for a code unit of sixteen bits. -/
def encodeUnit (n : Nat) : List UInt8 :=
  [lead 0xE0 (n / 4096), continuation (n / 64), continuation n]

def encodeChar (c : Char) : List UInt8 :=
  let n := c.toNat
  if n = 0 then [0xC0, 0x80]
  else if n < 0x80 then [UInt8.ofNat n]
  else if n < 0x800 then [lead 0xC0 (n / 64), continuation n]
  else if n < 0x10000 then encodeUnit n
  else
    encodeUnit (0xD800 + (n - 0x10000) / 1024) ++ encodeUnit (0xDC00 + (n - 0x10000) % 1024)

def encode (s : String) : List UInt8 :=
  s.toList.flatMap encodeChar

end ClassFormat.ModifiedUtf8
