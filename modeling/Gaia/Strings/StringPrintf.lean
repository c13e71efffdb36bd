/-
`StringPrintf` (`strings/stringprintf.h`, not under `src/`) as `strings/numbers.cc` calls it.

It is `printf` into a `string`. The model covers the part of the format language that
`numbers.cc` uses: the conversions `%s`, `%d` and `%u`, a field width, and the length
modifiers `l` and `ll`, which do not change how a value is printed. `PRId64` and `PRIu64`
from `<inttypes.h>` expand to a whole conversion with its length modifier, which depends on
the data model.

The callers' formats are fixed strings; their lemmas evaluate this model on them.
-/
import Gaia.Strings.ParseLeading

set_option autoImplicit false

namespace Gaia.Numbers

open Ascii

/-- An argument of `StringPrintf`. -/
inductive PrintfArg
  | str (s : Bytes)
  | int (v : Int)

/-- A signed integer as `%d` prints it. -/
def printInt (v : Int) : Bytes := (if v < 0 then [charByte '-'] else []) ++ decimal v.natAbs

/-- `s` right-aligned in a field of `width` bytes: spaces in front, up to the width. -/
def padField (width : Nat) (s : Bytes) : Bytes :=
  List.replicate (width - s.length) (charByte ' ') ++ s

/-- What one conversion prints for its argument, or `none` for an argument of the wrong
kind: `%s` a string, `%d` a signed integer, `%u` a nonnegative one. -/
def convert (c : UInt8) : PrintfArg → Option Bytes
  | .str s => if c = charByte 's' then some s else none
  | .int v =>
    if c = charByte 'd' then some (printInt v)
    else if c = charByte 'u' ∧ 0 ≤ v then some (decimal v.toNat) else none

/-- Modelled from the spec: `StringPrintf` is `printf` into a `string`. The format is read one
byte at a time; `width` is `none` outside a conversion and, after a `%`, the field width read
so far. A flag (a leading `0` included), any other conversion, a missing argument or one of
the wrong kind is `none`. -/
def printfAux : Option Nat → Bytes → List PrintfArg → Option Bytes
  | _, [], _ => some []
  | none, c :: fmt, args =>
    if c = charByte '%' then printfAux (some 0) fmt args
    else (c :: ·) <$> printfAux none fmt args
  | some w, c :: fmt, args =>
    if isDigit c ∧ (c ≠ charByte '0' ∨ 0 < w) then
      printfAux (some (10 * w + kAsciiToInt c)) fmt args
    else if c = charByte 'l' then printfAux (some w) fmt args
    else if c = charByte 's' ∨ c = charByte 'd' ∨ c = charByte 'u' then
      match args with
      | arg :: args => (convert c arg).bind fun s => (padField w s ++ ·) <$> printfAux none fmt args
      | [] => none
    else none

/-- `StringPrintf(format, ...)`. -/
def stringPrintf (format : Bytes) (args : List PrintfArg) : Option Bytes :=
  printfAux none format args

/-- `PRId64` from `<inttypes.h>`: the conversion of `int64_t` after the `%`, with `long`'s
length modifier under LP64 and `long long`'s under ILP32. -/
def DataModel.prid64 : DataModel → String
  | .ilp32 => "lld"
  | .lp64 => "ld"

/-- `PRIu64`, the same for `uint64_t`. -/
def DataModel.priu64 : DataModel → String
  | .ilp32 => "llu"
  | .lp64 => "lu"

theorem printInt_natCast (n : Nat) : printInt n = decimal n := by
  simp [printInt]

@[simp] theorem padField_zero (s : Bytes) : padField 0 s = s := by
  simp [padField]

end Gaia.Numbers
