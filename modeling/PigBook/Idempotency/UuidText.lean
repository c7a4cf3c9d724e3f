import Mathlib.Data.List.DropRight
import PigBook.Inventory.Rows

/-
  The texts that `uuid.UUID` accepts, in Python 3.12.

  A URN prefix, braces and hyphens are optional, and the 32
  characters that are left are read as `int(hex, 16)` reads
  them:  with blanks around them, a sign and a radix prefix,
  single underscores between the digits, and decimal digits
  of any script.

  Key definitions include:
    * `UuidText.parseHex`
    * `parseUuid`
-/

------------------------------------------------------------
-- Characters
------------------------------------------------------------

namespace PigBook.UuidText

/- The zeros of the decimal digits beyond ASCII. -/
def decimalZeros : List ℕ :=
  [0x660, 0x6f0, 0x7c0, 0x966, 0x9e6, 0xa66, 0xae6, 0xb66,
    0xbe6, 0xc66, 0xce6, 0xd66, 0xde6, 0xe50, 0xed0, 0xf20,
    0x1040, 0x1090, 0x17e0, 0x1810, 0x1946, 0x19d0, 0x1a80,
    0x1a90, 0x1b50, 0x1bb0, 0x1c40, 0x1c50, 0xa620, 0xa8d0,
    0xa900, 0xa9d0, 0xa9f0, 0xaa50, 0xabf0, 0xff10, 0x104a0,
    0x10d30, 0x11066, 0x110f0, 0x11136, 0x111d0, 0x112f0,
    0x11450, 0x114d0, 0x11650, 0x116c0, 0x11730, 0x118e0,
    0x11950, 0x11c50, 0x11d50, 0x11da0, 0x11f50, 0x16a60,
    0x16ac0, 0x16b50, 0x1d7ce, 0x1d7d8, 0x1d7e2, 0x1d7ec,
    0x1d7f6, 0x1e140, 0x1e2f0, 0x1e4f0, 0x1e950, 0x1fbf0]

/- The blanks beyond ASCII. -/
def wideSpaces : List ℕ :=
  [0x85, 0xa0, 0x1680, 0x2000, 0x2001, 0x2002, 0x2003, 0x2004,
    0x2005, 0x2006, 0x2007, 0x2008, 0x2009, 0x200a, 0x2028,
    0x2029, 0x202f, 0x205f, 0x3000]

/- The ASCII character that stands for a character. -/
def toAscii (c : Char) : Char :=
  if c.toNat < 127 then
    c
  else if c.toNat ∈ wideSpaces then
    ' '
  else
    match decimalZeros.find? (fun z =>
      z ≤ c.toNat ∧ c.toNat < z + 10) with
    | some z => Char.ofNat (48 + (c.toNat - z))
    | none => '?'

def isSpace (c : Char) : Bool :=
  c = ' ' ∨ 9 ≤ c.toNat ∧ c.toNat ≤ 13

def digitValue (c : Char) : Option ℕ :=
  if '0' ≤ c ∧ c ≤ '9' then
    some (c.toNat - 48)
  else if 'a' ≤ c ∧ c ≤ 'f' then
    some (c.toNat - 87)
  else if 'A' ≤ c ∧ c ≤ 'F' then
    some (c.toNat - 55)
  else
    none

end PigBook.UuidText

------------------------------------------------------------
-- Integers in Base 16
------------------------------------------------------------

namespace PigBook.UuidText

/- The text without its blanks at both ends. -/
def strip (cs : List Char) : List Char :=
  (cs.dropWhile isSpace).rdropWhile isSpace

/- The text after a sign; no hyphen is left to be one. -/
def afterSign : List Char → List Char
| '+' :: cs => cs
| cs => cs

/- The text after `0x`, and after one underscore there. -/
def afterRadix : List Char → List Char
| '0' :: 'x' :: '_' :: cs => cs
| '0' :: 'X' :: '_' :: cs => cs
| '0' :: 'x' :: cs => cs
| '0' :: 'X' :: cs => cs
| cs => cs

/- More digits, each perhaps after an underscore. -/
def readDigits : ℕ → List Char → Option ℕ
| n, [] => some n
| n, '_' :: c :: cs =>
    match digitValue c with
    | some d => readDigits (16 * n + d) cs
    | none => none
| n, c :: cs =>
    match digitValue c with
    | some d => readDigits (16 * n + d) cs
    | none => none

/- At least one digit. -/
def readNumber : List Char → Option ℕ
| [] => none
| c :: cs =>
    match digitValue c with
    | some d => readDigits d cs
    | none => none

/- `int(hex, 16)` -/
def parseHex (hex : List Char) : Option ℕ :=
  readNumber
    (afterRadix (afterSign (strip (hex.map toAscii))))

end PigBook.UuidText

------------------------------------------------------------
-- UUIDs
------------------------------------------------------------

namespace PigBook.UuidText

/-
  `replace(pattern, "")`, where the first `skip` characters
  are the rest of an occurrence.
-/
def removeAll
    (pattern : List Char) : ℕ → List Char → List Char
| _, [] => []
| skip + 1, _ :: cs => removeAll pattern skip cs
| 0, c :: cs =>
    if pattern.isPrefixOf (c :: cs) then
      removeAll pattern (pattern.length - 1) cs
    else
      c :: removeAll pattern 0 cs

def isBrace (c : Char) : Bool :=
  c = '\x7b' ∨ c = '\x7d'

/- What is left when the optional parts are taken away. -/
def bareDigits (text : List Char) : List Char :=
  let hex :=
    removeAll ['u', 'u', 'i', 'd', ':'] 0
      (removeAll ['u', 'r', 'n', ':'] 0 text)
  ((hex.dropWhile isBrace).rdropWhile isBrace).filter
    (fun c => c ≠ '-')

end PigBook.UuidText

namespace PigBook

/- `uuid.UUID(hex)`; it raises `ValueError` for `none`. -/
def parseUuid (text : String) : Option Uuid :=
  let hex := UuidText.bareDigits text.toList
  if hex.length = 32 then
    match UuidText.parseHex hex with
    | some n => if h : n < 2 ^ 128 then some ⟨n, h⟩ else none
    | none => none
  else
    none

end PigBook
