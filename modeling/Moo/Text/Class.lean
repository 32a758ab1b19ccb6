import Moo.Text.WordTable
import Moo.Text.PrintableTable

/-!
# Character classes

Words are made of letters, numbers and the underscore; blanks are what is stripped around a line;
decimal digits have a value in every script; printable characters are shown as they are inside
quotes. Each class is decided by hand below code point 128 and by a table above it.
-/

namespace Moo.Text

def inRanges (ranges : List (Nat × Nat)) (n : Nat) : Bool :=
  ranges.any fun (lo, hi) => lo ≤ n && n ≤ hi

/-- Letters and numbers of every script, and the underscore. -/
def isWord (c : Char) : Bool :=
  if c.val < 128 then c.isAlphanum || c == '_' else inRanges wordRanges c.toNat

def blankRanges : List (Nat × Nat) :=
  [(0x85, 0x85), (0xa0, 0xa0), (0x1680, 0x1680), (0x2000, 0x200a), (0x2028, 0x2029),
   (0x202f, 0x202f), (0x205f, 0x205f), (0x3000, 0x3000)]

/-- The blanks that may stand around a number: tab to carriage return, the space, and the blanks
beyond ASCII. -/
def isNumberBlank (c : Char) : Bool :=
  if c.val < 128 then c == ' ' || (9 ≤ c.val && c.val ≤ 13) else inRanges blankRanges c.toNat

/-- The blanks stripped around a line: those around a number and the four information separators. -/
def isBlank (c : Char) : Bool :=
  isNumberBlank c || (0x1c ≤ c.val && c.val ≤ 0x1f)

/-- The zeros of the scripts beyond ASCII; the nine code points after each are its other digits. -/
def zeros : List Nat :=
  [0x660, 0x6f0, 0x7c0, 0x966, 0x9e6, 0xa66, 0xae6, 0xb66, 0xbe6, 0xc66, 0xce6, 0xd66, 0xde6, 0xe50,
   0xed0, 0xf20, 0x1040, 0x1090, 0x17e0, 0x1810, 0x1946, 0x19d0, 0x1a80, 0x1a90, 0x1b50, 0x1bb0,
   0x1c40, 0x1c50, 0xa620, 0xa8d0, 0xa900, 0xa9d0, 0xa9f0, 0xaa50, 0xabf0, 0xff10, 0x104a0, 0x10d30,
   0x11066, 0x110f0, 0x11136, 0x111d0, 0x112f0, 0x11450, 0x114d0, 0x11650, 0x116c0, 0x11730,
   0x118e0, 0x11950, 0x11c50, 0x11d50, 0x11da0, 0x16a60, 0x16ac0, 0x16b50, 0x1d7ce, 0x1d7d8,
   0x1d7e2, 0x1d7ec, 0x1d7f6, 0x1e140, 0x1e2f0, 0x1e950, 0x1fbf0]

/-- The value of a decimal digit of any script. -/
def decimal? (c : Char) : Option Nat :=
  if c.val < 128 then
    if c.isDigit then some (c.toNat - 48) else none
  else
    (zeros.find? fun z => z ≤ c.toNat && c.toNat < z + 10).map (c.toNat - ·)

/-- Characters that need no escape inside quotes, the quote and the backslash apart. -/
def isPrintable (c : Char) : Bool :=
  if c.val < 128 then 32 ≤ c.val && c.val < 127 else inRanges printableRanges c.toNat

end Moo.Text
