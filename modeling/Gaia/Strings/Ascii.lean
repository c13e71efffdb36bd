/-
The byte layer under `strings/numbers.cc`.

Every routine there walks a `StringPiece` or a NUL-terminated `const char*` one byte at a
time, so a string is a `List UInt8`: the bytes of the piece, or the bytes in front of the
terminator. What the code asks of one byte is here, under the name the code uses for it:
`absl::ascii_isspace`, `isdigit`, `absl::ascii_toupper`, the digit table `kAsciiToInt`,
and the comparison of two bytes as `char`s.

`char` is signed on the x86-64 Linux targets this library builds for (its engine is
`io_uring`), so `AutoDigitStrCmp`'s `a[aindex] < b[bindex]` puts the bytes `0x80`..`0xff`
below `0x00`. `toChar` is that reading of a byte.

`kAsciiToInt` is kept as the table the source writes out, and `kAsciiToInt_eq` reads it
once as the three ranges it encodes; nothing after this file looks at the table again.
-/
import Mathlib.Data.List.Range
import Mathlib.Data.UInt

set_option autoImplicit false

namespace Gaia

/-- A string as the code reads it: the bytes of a `StringPiece`, or of a NUL-terminated
string up to its terminator. -/
abbrev Bytes := List UInt8

/-- A `char` literal as the byte it stores. -/
def charByte (c : Char) : UInt8 := c.toNat.toUInt8

/-- The bytes of an ASCII string literal. -/
def bytes (s : String) : Bytes := s.toList.map charByte

namespace Ascii

/-- `absl::ascii_isspace`, which is also the C locale's `isspace`: space, `\t`, `\n`,
`\v`, `\f`, `\r`. -/
def isSpace (c : UInt8) : Bool := c.toNat == 32 || (9 ≤ c.toNat && c.toNat ≤ 13)

/-- `isdigit` in the C locale. `AutoDigitStrCmp` passes a `char`, which is negative for a byte
above `0x7f` where `char` is signed; ISO C leaves `isdigit` undefined there, and glibc answers
false, as this does. -/
def isDigit (c : UInt8) : Bool := 48 ≤ c.toNat && c.toNat ≤ 57

/-- A byte read as a signed `char`. -/
def toChar (c : UInt8) : Int := if c.toNat < 128 then c.toNat else c.toNat - 256

/-- `absl::ascii_toupper`. -/
def asciiToupper (c : UInt8) : UInt8 := if 97 ≤ c.toNat ∧ c.toNat ≤ 122 then c - 32 else c

/-- The table `kAsciiToInt` (`strings/numbers.cc:201`), laid out as the source lays it
out: the value of a byte as a digit, `36` for a byte that is a digit in no base up to 36. -/
def kAsciiToIntTable : List Nat := [
  36, 36, 36, 36, 36, 36, 36, 36, 36, 36, 36, 36, 36, 36, 36, 36,
  36, 36, 36, 36, 36, 36, 36, 36, 36, 36, 36, 36, 36, 36, 36, 36,
  36, 36, 36, 36, 36, 36, 36, 36, 36, 36, 36, 36, 36, 36, 36, 36,
  0, 1, 2, 3, 4, 5, 6, 7, 8, 9,
  36, 36, 36, 36, 36, 36, 36,
  10, 11, 12, 13, 14, 15, 16, 17, 18, 19, 20, 21, 22, 23, 24, 25,
  26, 27, 28, 29, 30, 31, 32, 33, 34, 35,
  36, 36, 36, 36, 36, 36,
  10, 11, 12, 13, 14, 15, 16, 17, 18, 19, 20, 21, 22, 23, 24, 25,
  26, 27, 28, 29, 30, 31, 32, 33, 34, 35,
  36, 36, 36, 36, 36,
  36, 36, 36, 36, 36, 36, 36, 36, 36, 36, 36, 36, 36, 36, 36, 36,
  36, 36, 36, 36, 36, 36, 36, 36, 36, 36, 36, 36, 36, 36, 36, 36,
  36, 36, 36, 36, 36, 36, 36, 36, 36, 36, 36, 36, 36, 36, 36, 36,
  36, 36, 36, 36, 36, 36, 36, 36, 36, 36, 36, 36, 36, 36, 36, 36,
  36, 36, 36, 36, 36, 36, 36, 36, 36, 36, 36, 36, 36, 36, 36, 36,
  36, 36, 36, 36, 36, 36, 36, 36, 36, 36, 36, 36, 36, 36, 36, 36,
  36, 36, 36, 36, 36, 36, 36, 36, 36, 36, 36, 36, 36, 36, 36, 36,
  36, 36, 36, 36, 36, 36, 36, 36, 36, 36, 36, 36, 36, 36, 36, 36 ]

/-- `kAsciiToInt[c]`, indexed by the byte as an `unsigned char`. -/
def kAsciiToInt (c : UInt8) : Nat := kAsciiToIntTable.getD c.toNat 36

theorem toNat_lt_256 (c : UInt8) : c.toNat < 256 := c.val.isLt

/-- The three ranges the table encodes: `0`-`9`, then `A`-`Z` and `a`-`z` as 10..35. -/
def digitValue (n : Nat) : Nat :=
  if 48 ≤ n ∧ n ≤ 57 then n - 48
  else if 65 ≤ n ∧ n ≤ 90 then n - 55
  else if 97 ≤ n ∧ n ≤ 122 then n - 87
  else 36

-- The table has 256 entries; its literal is deeper than the default limit.
set_option maxRecDepth 4000 in
theorem kAsciiToIntTable_eq : kAsciiToIntTable = (List.range 256).map digitValue := by rfl

/-- **The table, read once.** -/
theorem kAsciiToInt_eq (c : UInt8) : kAsciiToInt c = digitValue c.toNat := by
  have hc : c.toNat < 256 := toNat_lt_256 c
  rw [kAsciiToInt, kAsciiToIntTable_eq]
  simp [List.getElem?_range hc]

theorem kAsciiToInt_le (c : UInt8) : kAsciiToInt c ≤ 36 := by
  rw [kAsciiToInt_eq, digitValue]; split_ifs <;> omega

/-- A byte is a decimal digit exactly when its table value is below ten, and then that
value is the byte minus `'0'`. -/
theorem kAsciiToInt_lt_ten_iff (c : UInt8) :
    kAsciiToInt c < 10 ↔ isDigit c = true := by
  rw [kAsciiToInt_eq, digitValue, isDigit]
  split_ifs <;> simp <;> omega

theorem kAsciiToInt_of_isDigit {c : UInt8} (h : isDigit c = true) :
    kAsciiToInt c = c.toNat - 48 := by
  simp only [isDigit, Bool.and_eq_true, decide_eq_true_eq] at h
  rw [kAsciiToInt_eq, digitValue, if_pos h]

/-! ## Bytes as `char`s -/

theorem toChar_injective : Function.Injective toChar := by
  intro a b h
  have ha := toNat_lt_256 a
  have hb := toNat_lt_256 b
  simp only [toChar] at h
  apply UInt8.toNat.inj
  split_ifs at h <;> omega

/-- A digit is a `char` in `'0'..'9'`; every other byte is a `char` outside that range. -/
theorem toChar_mem_digits_iff (c : UInt8) :
    (48 ≤ toChar c ∧ toChar c ≤ 57) ↔ isDigit c = true := by
  have hc := toNat_lt_256 c
  simp only [toChar, isDigit, Bool.and_eq_true, decide_eq_true_eq]
  split_ifs <;> omega

theorem toChar_of_isDigit {c : UInt8} (h : isDigit c = true) : toChar c = c.toNat := by
  simp only [isDigit, Bool.and_eq_true, decide_eq_true_eq] at h
  simp only [toChar, if_pos (show c.toNat < 128 by omega)]

end Ascii

end Gaia
