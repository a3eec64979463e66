/-!
# Hexadecimal numbers

Lower-case digits without padding; offsets carry the mark `0x`.
-/
namespace ClassFormat.Text

def hexadecimal (n : Nat) : String :=
  String.ofList (Nat.toDigits 16 n)

def offsetText (n : Nat) : String :=
  "0x" ++ hexadecimal n

end ClassFormat.Text
