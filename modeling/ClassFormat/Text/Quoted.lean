import ClassFormat.Text.Hexadecimal

/-!
# Quoted text

A string is shown between double quotes. A few characters have short escapes;
those without a visible form of their own, and the marks that would combine
with their neighbour, are written by their code point.
-/
namespace ClassFormat.Text

/-- Inclusive ranges of characters without a visible form of their own:
controls, blanks other than the space, separators, format characters, private
use and noncharacters. -/
def invisibleRanges : List (Nat × Nat) :=
  [(0x0000, 0x001F), (0x007F, 0x00A0), (0x00AD, 0x00AD), (0x061C, 0x061C), (0x1680, 0x1680),
   (0x180E, 0x180E), (0x2000, 0x200F), (0x2028, 0x202F), (0x205F, 0x206F), (0x3000, 0x3000),
   (0xE000, 0xF8FF), (0xFDD0, 0xFDEF), (0xFEFF, 0xFEFF), (0xFFF0, 0xFFFB), (0xFFFE, 0xFFFF),
   (0x1FFFE, 0x1FFFF), (0x2FFFE, 0x2FFFF), (0xE0000, 0x10FFFF)]

/-- Inclusive ranges of the marks that combine with the character before them. -/
def combiningRanges : List (Nat × Nat) :=
  [(0x0300, 0x036F), (0x0483, 0x0489), (0x1AB0, 0x1ACE), (0x1DC0, 0x1DFF), (0x20D0, 0x20F0),
   (0x302A, 0x302F), (0x3099, 0x309A), (0xFE00, 0xFE0F), (0xFE20, 0xFE2F)]

/-- Whether a character is written by its code point. -/
def needsCode (c : Char) : Bool :=
  (invisibleRanges ++ combiningRanges).any fun range =>
    range.1 ≤ c.toNat && c.toNat ≤ range.2

def escape (c : Char) : List Char :=
  match c with
  | '\x00' => ['\\', '0']
  | '\t' => ['\\', 't']
  | '\n' => ['\\', 'n']
  | '\r' => ['\\', 'r']
  | '"' => ['\\', '"']
  | '\\' => ['\\', '\\']
  | _ =>
    if c.toNat < 0x7F && 0x20 ≤ c.toNat then [c]
    else if needsCode c then
      ['\\', 'u', '\x7b'] ++ Nat.toDigits 16 c.toNat ++ ['\x7d']
    else [c]

def quoted (s : String) : String :=
  String.ofList ('"' :: s.toList.flatMap escape ++ ['"'])

end ClassFormat.Text
