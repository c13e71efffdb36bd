/-
`ParseLeadingInt32Value`, `ParseLeadingUInt32Value`, `ParseLeadingDec32Value`,
`ParseLeadingUDec32Value` and the five 64-bit parsers after them (`strings/numbers.cc:43`-`176`).

Each reads the number at the front of a string with the C library and falls back to
`deflt` when nothing was converted. For the 32-bit ones the library call depends on the
width of `long`: the unsigned parsers test `numeric_limits<unsigned long>::max() ==
numeric_limits<uint32>::max()` and use `strtoul` where `long` has 32 bits, `strto64` with
pegging by hand where it has 64; the signed ones always call `strtol` and clamp to `int32`.
The two branches never run on one machine, so the width is a parameter, `DataModel`.

The library calls are POSIX's: `strtoSubject` is the subject sequence (white space, a sign,
a base prefix, the longest run of digits), read as an unbounded magnitude, and `strtol`,
`strtoul` saturate or wrap it as POSIX says for a `long` of the given width. `strto64` and
`strtou64`, declared in `strings/strtoint.h`, are not under `src/` and are taken to be
`strtoll` and `strtoull`.

Every parser hands `str.data()` to the library, which reads on to the first NUL, wherever
that lies; only `str.empty()` looks at the piece's own length. The model reads the bytes of
the piece, so it is the code on a piece that a NUL follows in memory: the `c_str()` of a
`std::string`, a literal, a buffer with its terminator. Every result here is about such
pieces; what follows the NUL is never read (`parseLeading_append_nul`). A piece cut out of
a longer string is read on past its end by the code (`StringPiece("123", 2)` reads as `123`),
and that is not modelled.

The result is `leadingInt32` and `leadingUInt32`: what each 32-bit parser returns, the same
under both data models (`parseLeading_branches_agree`). The decimal 64-bit parsers read
numbers with leading zeroes, as their comment says (`parseLeadingDec64Value_leading_zeros`);
the base-0 ones read a leading zero as the start of an octal numeral
(`parseLeading_leading_zero_octal`), which is what their comments mean by "cannot handle
decimal numbers with leading 0s", and on every other string they agree with the decimal ones
(`parseLeading_base_zero_eq_decimal`). The signed 32-bit parsers are the 64-bit ones clamped
to `int32` (`parseLeading32_clamps_64`).
-/
import Gaia.Strings.SafeStrto
import Mathlib.Data.BitVec

set_option autoImplicit false

namespace Gaia.Numbers

open Ascii

/-! ## The C library -/

/-- A base prefix `0x` or `0X` with a hex digit after it: what follows the prefix. -/
def hexPrefix : Bytes → Option Bytes
  | c :: x :: h :: rest =>
    if c = charByte '0' ∧ (x = charByte 'x' ∨ x = charByte 'X') ∧ kAsciiToInt h < 16 then
      some (h :: rest)
    else none
  | _ => none

/-- The subject sequence of `strtol` and `strtoul` for base `0` or `2`..`36`: after leading
white space an optional sign, then for base `0` a `0x` prefix (hex), a leading `0` (octal)
or neither (decimal), for base `16` an optional `0x` prefix, then the longest run of digits
of the base. The result is the sign, the magnitude at any precision, and the bytes from
`*endptr` on; `none` when the run is empty, where nothing is converted and `*endptr` is the
string itself. A `0x` without a hex digit after it is the numeral `0` followed by other
bytes. -/
def strtoSubject (s : Bytes) (base : Nat) : Option (Bool × Nat × Bytes) :=
  let t := s.dropWhile isSpace
  let (negative, r) : Bool × Bytes := match t with
    | c :: r =>
      if c = charByte '-' then (true, r) else if c = charByte '+' then (false, r) else (false, t)
    | [] => (false, [])
  let (b, r) : Nat × Bytes :=
    if base = 0 then
      match hexPrefix r with
      | some r' => (16, r')
      | none => if r.head? = some (charByte '0') then (8, r) else (10, r)
    else if base = 16 then (16, (hexPrefix r).getD r)
    else (base, r)
  let digits := r.takeWhile fun c => kAsciiToInt c < b
  if digits = [] then none
  else some (negative, numeral b digits, r.dropWhile fun c => kAsciiToInt c < b)

/-- POSIX `strtol` for a `long` of `w` bits: the signed magnitude, saturated at `LONG_MIN`
and `LONG_MAX`; `none` when nothing was converted. -/
def strtol (w : Nat) (s : Bytes) (base : Nat) : Option Int :=
  (strtoSubject s base).map fun (negative, m, _) =>
    if negative then max (-(m : Int)) (-2 ^ (w - 1)) else min (m : Int) (2 ^ (w - 1) - 1)

/-- POSIX `strtoul` for an `unsigned long` of `w` bits: `ULONG_MAX` when the magnitude does
not fit, else the magnitude, negated in the unsigned type after a `-`. -/
def strtoul (w : Nat) (s : Bytes) (base : Nat) : Option Nat :=
  (strtoSubject s base).map fun (negative, m, _) =>
    if m > 2 ^ w - 1 then 2 ^ w - 1 else if negative then (2 ^ w - m) % 2 ^ w else m

/-- Modelled from the spec: `strto64` is declared in `strings/strtoint.h`, which is not under
`src/`; it is `strtoll`, `strtol` for a 64-bit type. -/
def strto64 (s : Bytes) (base : Nat) : Option Int := strtol 64 s base

/-- Modelled from the spec: `strtou64` (`strings/strtoint.h`, not under `src/`) is
`strtoull`: the value, saturated at `ULLONG_MAX` and negated modulo `2^64` after a `-`, and
the bytes from `*endptr` on. -/
def strtou64 (s : Bytes) (base : Nat) : Option (Nat × Bytes) :=
  (strtoSubject s base).map fun (negative, m, rest) =>
    (if m > 2 ^ 64 - 1 then 2 ^ 64 - 1 else if negative then (2 ^ 64 - m) % 2 ^ 64 else m, rest)

/-! ## The parsers

`str` is the piece, followed in memory by a NUL, so that the string `strtol(str.data(), ...)`
reads is the piece itself. -/

/-- The width of `long`: 32 bits (ILP32) or 64 (LP64). -/
inductive DataModel
  | ilp32
  | lp64
  deriving DecidableEq, Repr

/-- The bits of `long` and `unsigned long`. -/
def DataModel.longBits : DataModel → Nat
  | ilp32 => 32
  | lp64 => 64

/-- `numeric_limits<uint32>::max()`. -/
def uint32Max : Nat := 2 ^ 32 - 1

/-- `ParseLeadingInt32Value` and `ParseLeadingDec32Value`: `strtol` in `base`, clamped to
`int32`, or `deflt` when nothing was converted. -/
def parseLeadingSigned (dm : DataModel) (base : Nat) (str : Bytes) (deflt : Int) : Int :=
  let r := strtol dm.longBits str base
  let value := r.getD 0
  let value := if value > IntType.int32.max then IntType.int32.max
    else if value < IntType.int32.min then IntType.int32.min else value
  if r.isNone then deflt else value

/-- `ParseLeadingInt32Value(str, deflt)`. -/
def parseLeadingInt32Value (dm : DataModel) (str : Bytes) (deflt : Int) : Int :=
  if str.isEmpty then deflt else parseLeadingSigned dm 0 str deflt

/-- `ParseLeadingDec32Value(str, deflt)`. -/
def parseLeadingDec32Value (dm : DataModel) (str : Bytes) (deflt : Int) : Int :=
  parseLeadingSigned dm 10 str deflt

/-- `ParseLeadingUInt32Value` and `ParseLeadingUDec32Value` after their first line: `strtoul`
where `unsigned long` is `uint32`, else `strto64` pegged to `UINT32_MAX` outside
`[-UINT32_MAX, UINT32_MAX]` and truncated to 32 bits. -/
def parseLeadingUnsigned (dm : DataModel) (base : Nat) (str : Bytes) (deflt : BitVec 32) :
    BitVec 32 :=
  if 2 ^ dm.longBits - 1 = uint32Max then
    let r := strtoul dm.longBits str base
    let value := BitVec.ofNat 32 (r.getD 0)
    if r.isNone then deflt else value
  else
    let r := strto64 str base
    let value := r.getD 0
    let value : Int :=
      if value > uint32Max ∨ value < -(uint32Max : Int) then uint32Max else value
    if r.isNone then deflt else BitVec.ofInt 32 value

/-- `ParseLeadingUInt32Value(str, deflt)`. -/
def parseLeadingUInt32Value (dm : DataModel) (str : Bytes) (deflt : BitVec 32) : BitVec 32 :=
  if str.isEmpty then deflt else parseLeadingUnsigned dm 0 str deflt

/-- `ParseLeadingUDec32Value(str, deflt)`. -/
def parseLeadingUDec32Value (dm : DataModel) (str : Bytes) (deflt : BitVec 32) : BitVec 32 :=
  parseLeadingUnsigned dm 10 str deflt

/-- The signed 64-bit parsers, `ParseLeadingInt64Value` and `ParseLeadingDec64Value`:
`strto64` in `base`, or `deflt` when nothing was converted (`error == str.data()`). -/
def parseLeadingSigned64 (base : Nat) (str : Bytes) (deflt : Int) : Int :=
  (strto64 str base).getD deflt

/-- The unsigned 64-bit parsers, `ParseLeadingUInt64Value`, `ParseLeadingHex64Value` and
`ParseLeadingUDec64Value`: `strtou64` in `base`, or `deflt` when nothing was converted. -/
def parseLeadingUnsigned64 (base : Nat) (str : Bytes) (deflt : BitVec 64) : BitVec 64 :=
  match strtou64 str base with
  | none => deflt
  | some (value, _) => BitVec.ofNat 64 value

/-- `ParseLeadingUInt64Value(str, deflt)`. -/
def parseLeadingUInt64Value (str : Bytes) (deflt : BitVec 64) : BitVec 64 :=
  parseLeadingUnsigned64 0 str deflt

/-- `ParseLeadingInt64Value(str, deflt)`. -/
def parseLeadingInt64Value (str : Bytes) (deflt : Int) : Int :=
  parseLeadingSigned64 0 str deflt

/-- `ParseLeadingHex64Value(str, deflt)`. -/
def parseLeadingHex64Value (str : Bytes) (deflt : BitVec 64) : BitVec 64 :=
  parseLeadingUnsigned64 16 str deflt

/-- `ParseLeadingDec64Value(str, deflt)`. -/
def parseLeadingDec64Value (str : Bytes) (deflt : Int) : Int :=
  parseLeadingSigned64 10 str deflt

/-- `ParseLeadingUDec64Value(str, deflt)`. -/
def parseLeadingUDec64Value (str : Bytes) (deflt : BitVec 64) : BitVec 64 :=
  parseLeadingUnsigned64 10 str deflt

/-! ## What the parsers return -/

/-- What `ParseLeadingInt32Value` (`base = 0`) and `ParseLeadingDec32Value` (`base = 10`)
return: `deflt` when no digit was read, else the signed numeral clamped to `int32`, which is
`strtol` for a 32-bit `long`. -/
def leadingInt32 (base : Nat) (str : Bytes) (deflt : Int) : Int :=
  match strtoSubject str base with
  | none => deflt
  | some (negative, m, _) =>
    if negative then max (-(m : Int)) IntType.int32.min else min (m : Int) IntType.int32.max

/-- What `ParseLeadingUInt32Value` (`base = 0`) and `ParseLeadingUDec32Value` (`base = 10`)
return: `deflt` when no digit was read, `UINT32_MAX` for a magnitude above it, else the
magnitude, negated modulo `2^32` after a `-`, which is `strtoul` for a 32-bit
`unsigned long`. -/
def leadingUInt32 (base : Nat) (str : Bytes) (deflt : BitVec 32) : BitVec 32 :=
  match strtoSubject str base with
  | none => deflt
  | some (negative, m, _) =>
    if m > uint32Max then BitVec.ofNat 32 uint32Max
    else if negative then BitVec.ofNat 32 ((2 ^ 32 - m) % 2 ^ 32) else BitVec.ofNat 32 m

theorem strtoSubject_nil (base : Nat) : strtoSubject [] base = none := by
  unfold strtoSubject
  split_ifs <;> rfl

theorem parseLeadingSigned_eq (dm : DataModel) (base : Nat) (str : Bytes) (deflt : Int) :
    parseLeadingSigned dm base str deflt = leadingInt32 base str deflt := by
  have hmax : IntType.int32.max = 2 ^ 31 - 1 := rfl
  have hmin : IntType.int32.min = -2 ^ 31 := rfl
  simp only [parseLeadingSigned, leadingInt32, strtol]
  rcases strtoSubject str base with _ | ⟨_ | _, m, _⟩
  · rfl
  all_goals
    simp only [Option.map_some', Option.getD_some, Option.isNone_some, hmax, hmin, if_false,
      Bool.false_eq_true, if_true]
    cases dm <;> simp only [DataModel.longBits] <;> omega

theorem parseLeadingUnsigned_eq (dm : DataModel) (base : Nat) (str : Bytes)
    (deflt : BitVec 32) :
    parseLeadingUnsigned dm base str deflt = leadingUInt32 base str deflt := by
  simp only [parseLeadingUnsigned, leadingUInt32, strtoul, strto64, strtol]
  rcases strtoSubject str base with _ | ⟨negative, m, _⟩
  · cases dm <;> rfl
  simp only [Option.map_some', Option.getD_some, Option.isNone_some, if_false,
    Bool.false_eq_true, uint32Max]
  cases dm <;> simp only [DataModel.longBits]
  · -- ILP32: `strtoul` is already the answer, truncated to 32 bits
    rw [if_pos trivial]
    cases negative <;> exact apply_ite (BitVec.ofNat 32) _ _ _
  · -- LP64: `strto64`, pegged and truncated
    rw [if_neg (by norm_num)]
    apply BitVec.eq_of_toNat_eq
    cases negative <;> simp only [Bool.false_eq_true, if_true, if_false] <;> split_ifs <;>
      simp only [BitVec.toNat_ofInt, BitVec.toNat_ofNat] <;> omega

/-- **The two branches agree.** Under either data model, and so in particular in the LP64
branch and the ILP32 one alike, the four parsers return `leadingUInt32` and `leadingInt32`:
`deflt` exactly when no digit was read, else what `strtoul` and `strtol` return for 32-bit
`long`s. -/
theorem parseLeading_branches_agree (dm : DataModel) (s : Bytes) (d : Int) (du : BitVec 32) :
    parseLeadingUInt32Value dm s du = leadingUInt32 0 s du ∧
    parseLeadingUDec32Value dm s du = leadingUInt32 10 s du ∧
    parseLeadingInt32Value dm s d = leadingInt32 0 s d ∧
    parseLeadingDec32Value dm s d = leadingInt32 10 s d := by
  refine ⟨?_, parseLeadingUnsigned_eq dm 10 s du, ?_, parseLeadingSigned_eq dm 10 s d⟩
  · rw [parseLeadingUInt32Value, parseLeadingUnsigned_eq]
    split_ifs with h
    · rw [List.isEmpty_iff.1 h, leadingUInt32, strtoSubject_nil]
    · rfl
  · rw [parseLeadingInt32Value, parseLeadingSigned_eq]
    split_ifs with h
    · rw [List.isEmpty_iff.1 h, leadingInt32, strtoSubject_nil]
    · rfl

/-! ## Reading a decimal numeral -/

/-- A sign, a run of decimal digits, then a byte that is no digit (or the end): `strtol` in
base ten reads the run and stops at that byte. -/
theorem strtoSubject_digits (negative : Bool) {D : Bytes} (hD : D ≠ [])
    (hdig : ∀ c ∈ D, isDigit c = true) (rest : Bytes)
    (hrest : ∀ c ∈ rest.head?, 10 ≤ kAsciiToInt c) :
    strtoSubject ((if negative then [charByte '-'] else []) ++ (D ++ rest)) 10
      = some (negative, numeral 10 D, rest) := by
  have hdig' : ∀ c ∈ D, decide (kAsciiToInt c < 10) = true := fun c hc => by
    simpa [kAsciiToInt_lt_ten_iff] using hdig c hc
  have hrun : ((D ++ rest).takeWhile fun c => kAsciiToInt c < 10) = D ∧
      ((D ++ rest).dropWhile fun c => kAsciiToInt c < 10) = rest := by
    rw [List.takeWhile_append_of_pos hdig', List.dropWhile_append_of_pos hdig']
    cases rest with
    | nil => simp
    | cons c r =>
      have hc : ¬kAsciiToInt c < 10 := by have := hrest c rfl; omega
      simp [List.takeWhile_cons_of_neg, List.dropWhile_cons_of_neg, hc]
  obtain ⟨d, ds, hd⟩ := List.exists_cons_of_ne_nil hD
  have hdd : isDigit d = true := hdig d (hd ▸ List.mem_cons_self d ds)
  have hdd' : 48 ≤ d.toNat ∧ d.toNat ≤ 57 := by simpa [isDigit] using hdd
  have h10 : (10 : Nat) ≠ 0 ∧ (10 : Nat) ≠ 16 := by decide
  cases negative with
  | true =>
    simp only [strtoSubject, if_true, List.singleton_append]
    rw [List.dropWhile_cons_of_neg (by decide)]
    simp only [if_true, if_neg h10.1, if_neg h10.2, hrun, hD, ↓reduceIte]
  | false =>
    have hsp : isSpace d = false := by simp [isSpace]; omega
    have hsign : d ≠ charByte '-' ∧ d ≠ charByte '+' := by
      constructor <;> intro h <;> subst h <;> revert hdd' <;> decide
    simp only [strtoSubject, if_false, Bool.false_eq_true, List.nil_append, hd, List.cons_append]
    rw [List.dropWhile_cons_of_neg (by simp [hsp])]
    simp only [if_neg hsign.1, if_neg hsign.2]
    rw [← List.cons_append, ← hd]
    simp only [if_neg h10.1, if_neg h10.2, hrun, hD, ↓reduceIte]

/-- A sign, `k` zeroes, the decimal digits of `v`, then a byte that is no digit (or the
end): `strtol` in base ten reads `v` and stops at that byte. -/
theorem strtoSubject_decimal (negative : Bool) (k v : Nat) (rest : Bytes)
    (hrest : ∀ c ∈ rest.head?, 10 ≤ kAsciiToInt c) :
    strtoSubject ((if negative then [charByte '-'] else []) ++ pad k 0 ++ decimal v ++ rest) 10
      = some (negative, v, rest) := by
  have hD : pad k 0 ++ decimal v ≠ [] := by simp [decimal_ne_nil]
  have hdig : ∀ c ∈ pad k 0 ++ decimal v, isDigit c = true := fun c hc => by
    rcases List.mem_append.1 hc with hc | hc
    · exact isDigit_of_mem_pad hc
    · exact isDigit_of_mem_decimal hc
  have hv : numeral 10 (pad k 0 ++ decimal v) = v := by
    rw [numeral_append, numeral_pad, numeral_decimal, Nat.zero_mod, Nat.zero_mul, Nat.zero_add]
  rw [List.append_assoc, List.append_assoc, ← List.append_assoc (pad k 0),
    strtoSubject_digits negative hD hdig rest hrest, hv]

/-! ## Reading in base 0

In base 0 `strtol` looks at the first digit: a `0x` with a hex digit after it is hex, any
other `0` is octal, anything else decimal. -/

theorem hexPrefix_of_ne_zero {c : UInt8} (hc : c ≠ charByte '0') (s : Bytes) :
    hexPrefix (c :: s) = none := by
  rcases s with _ | ⟨x, _ | ⟨h, rest⟩⟩
  · rfl
  · rfl
  · simp [hexPrefix, hc]

/-- `strtol` takes a prefix only where the second byte is an `x`. -/
theorem hexPrefix_eq_none {s : Bytes}
    (h : ∀ x ∈ s.tail.head?, x ≠ charByte 'x' ∧ x ≠ charByte 'X') : hexPrefix s = none := by
  rcases s with _ | ⟨c, _ | ⟨x, _ | ⟨d, r⟩⟩⟩
  · rfl
  · rfl
  · rfl
  · have hx := h x rfl
    simp only [hexPrefix]
    exact if_neg fun ⟨_, h⟩ => h.1.elim hx.1 hx.2

/-- A run of digits below `b`, then a byte that is no such digit: the run is what
`strtol`'s loop reads, and the rest is where it stops. -/
theorem run_append {b : Nat} {D : Bytes} (hD : ∀ c ∈ D, kAsciiToInt c < b) {rest : Bytes}
    (hrest : ∀ c ∈ rest.head?, b ≤ kAsciiToInt c) :
    ((D ++ rest).takeWhile fun c => kAsciiToInt c < b) = D ∧
      ((D ++ rest).dropWhile fun c => kAsciiToInt c < b) = rest := by
  have hD' : ∀ c ∈ D, decide (kAsciiToInt c < b) = true := fun c hc => by simpa using hD c hc
  rw [List.takeWhile_append_of_pos hD', List.dropWhile_append_of_pos hD']
  cases rest with
  | nil => simp
  | cons c r =>
    have hc : ¬kAsciiToInt c < b := by have := hrest c rfl; omega
    simp [List.takeWhile_cons_of_neg, List.dropWhile_cons_of_neg, hc]

/-- The sign in front of a numeral: `strtol` reads it and goes on as without it. -/
theorem strtoSubject_sign (negative : Bool) {c : UInt8}
    (hc : isSpace c = false ∧ c ≠ charByte '-' ∧ c ≠ charByte '+') (r : Bytes) (base : Nat) :
    strtoSubject ((if negative then [charByte '-'] else []) ++ c :: r) base =
      (strtoSubject (c :: r) base).map fun (_, m, rest) => (negative, m, rest) := by
  have hsp : (c :: r).dropWhile isSpace = c :: r := List.dropWhile_cons_of_neg (by simp [hc.1])
  cases negative
  · simp only [strtoSubject, Bool.false_eq_true, if_false, List.nil_append, hsp, if_neg hc.2.1,
      if_neg hc.2.2, apply_ite (Option.map _), Option.map_none', Option.map_some']
  · simp only [strtoSubject, if_true, List.singleton_append, hsp, if_neg hc.2.1, if_neg hc.2.2,
      apply_ite (Option.map _), Option.map_none', Option.map_some']
    rw [List.dropWhile_cons_of_neg (by decide)]
    simp only [if_true]

theorem pad_zero (k : Nat) : pad k 0 = List.replicate k (digitChar 0) := by
  induction k with
  | zero => rfl
  | succ k ih => rw [pad, Nat.zero_div, Nat.zero_mod, ih, List.replicate_succ']

/-- A digit run that does not start with `0` is decimal in base 0. -/
theorem strtoSubject_zero_decimal {D : Bytes} (hne : D ≠ [])
    (hhead : ∀ c ∈ D.head?, c ≠ charByte '0') (hdig : ∀ c ∈ D, isDigit c = true) (rest : Bytes)
    (hrest : ∀ c ∈ rest.head?, 10 ≤ kAsciiToInt c) :
    strtoSubject (D ++ rest) 0 = some (false, numeral 10 D, rest) := by
  obtain ⟨d, ds, rfl⟩ := List.exists_cons_of_ne_nil hne
  have hd : isDigit d = true := hdig d (List.mem_cons_self _ _)
  have hd' : 48 ≤ d.toNat ∧ d.toNat ≤ 57 := by simpa [isDigit] using hd
  have hsp : isSpace d = false := by simp [isSpace]; omega
  have hsign : d ≠ charByte '-' ∧ d ≠ charByte '+' := by
    constructor <;> intro h <;> subst h <;> revert hd' <;> decide
  have h0 : d ≠ charByte '0' := hhead d rfl
  have hrun := run_append (fun c hc => (kAsciiToInt_lt_ten_iff c).2 (hdig c hc)) hrest
  have hdrop : (d :: ds ++ rest).dropWhile isSpace = d :: ds ++ rest :=
    List.dropWhile_cons_of_neg (by simp [hsp])
  simp only [List.cons_append] at hrun hdrop
  simp only [strtoSubject, List.cons_append, hdrop, if_neg hsign.1, if_neg hsign.2, if_true,
    hexPrefix_of_ne_zero h0, List.head?_cons, Option.some.injEq, if_neg h0, hrun,
    if_neg (List.cons_ne_nil _ _)]

/-- A `0`, more zeroes, then octal digits is octal in base 0. -/
theorem strtoSubject_zero_octal {k : Nat} (hk : 1 ≤ k) {D : Bytes}
    (hD : ∀ c ∈ D, kAsciiToInt c < 8) (rest : Bytes)
    (hrest : ∀ c ∈ rest.head?, 8 ≤ kAsciiToInt c ∧ c ≠ charByte 'x' ∧ c ≠ charByte 'X') :
    strtoSubject (pad k 0 ++ D ++ rest) 0 = some (false, numeral 8 D, rest) := by
  obtain ⟨j, rfl⟩ : ∃ j, k = j + 1 := ⟨k - 1, by omega⟩
  have hzero : ∀ c ∈ pad (j + 1) 0, kAsciiToInt c = 0 := fun c hc => by
    rw [pad_zero, List.mem_replicate] at hc; rw [hc.2]; rfl
  have hoct : ∀ c ∈ pad (j + 1) 0 ++ D, kAsciiToInt c < 8 := fun c hc => by
    rcases List.mem_append.1 hc with hc | hc
    · rw [hzero c hc]; omega
    · exact hD c hc
  have hrun := run_append hoct (fun c hc => (hrest c hc).1)
  have hval : numeral 8 (pad (j + 1) 0 ++ D) = numeral 8 D := by
    have : numeral 8 (pad (j + 1) 0) = 0 := by
      rw [pad_zero]; induction j + 1 with
      | zero => rfl
      | succ n ih => rw [List.replicate_succ', numeral_append, ih]; rfl
    rw [numeral_append, this, Nat.zero_mul, Nat.zero_add]
  have hx : ∀ c ∈ (List.replicate j (digitChar 0) ++ D ++ rest).head?,
      c ≠ charByte 'x' ∧ c ≠ charByte 'X' := by
    have hnx : ∀ c, kAsciiToInt c < 8 → c ≠ charByte 'x' ∧ c ≠ charByte 'X' := fun c hc =>
      ⟨fun h => by subst h; revert hc; decide, fun h => by subst h; revert hc; decide⟩
    intro c hc
    rcases j with _ | j
    · rcases D with _ | ⟨d, D⟩
      · exact (hrest c hc).2
      · simp only [List.replicate_zero, List.nil_append, List.cons_append, List.head?_cons,
          Option.mem_def, Option.some.injEq] at hc
        exact hc ▸ hnx d (hD d (List.mem_cons_self _ _))
    · simp only [List.replicate_succ, List.cons_append, List.head?_cons, Option.mem_def,
        Option.some.injEq] at hc
      exact hc ▸ hnx _ (by decide)
  have hsplit : pad (j + 1) 0 ++ D ++ rest =
      charByte '0' :: (List.replicate j (digitChar 0) ++ D ++ rest) := by
    rw [pad_zero, List.replicate_succ]; rfl
  have h0 : isSpace (charByte '0') = false ∧ charByte '0' ≠ charByte '-' ∧
      charByte '0' ≠ charByte '+' := by decide
  have hdrop : (pad (j + 1) 0 ++ D ++ rest).dropWhile isSpace = pad (j + 1) 0 ++ D ++ rest := by
    rw [hsplit]; exact List.dropWhile_cons_of_neg (by simp [h0.1])
  simp only [strtoSubject, hdrop]
  rw [hsplit]
  simp only [if_neg h0.2.1, if_neg h0.2.2, if_true,
    hexPrefix_eq_none (s := charByte '0' :: (List.replicate j (digitChar 0) ++ D ++ rest)) hx,
    List.head?_cons]
  rw [← hsplit, hrun.1, hrun.2, hval,
    if_neg (List.ne_nil_of_length_pos (by simp only [List.length_append, pad_length]; omega))]

/-! ## A NUL ends the string

`strtol` reads `str.data()` as a C string, up to its NUL. The model's subject sequence stops
at a NUL of its own accord: a NUL is no blank, no sign, no `0` of a prefix and no digit of
any base up to 36, so whatever follows a NUL is never read (`strtoSubject_append_nul`). For
the proofs `strtoSubject` is cut into its three stages. -/

/-- The sign stage of `strtoSubject`, after the white space. -/
def subjectSign (t : Bytes) : Bool × Bytes :=
  match t with
  | c :: r =>
    if c = charByte '-' then (true, r) else if c = charByte '+' then (false, r) else (false, t)
  | [] => (false, [])

/-- The base stage of `strtoSubject`: the base the digits are read in, after the prefix. -/
def subjectBase (base : Nat) (r : Bytes) : Nat × Bytes :=
  if base = 0 then
    match hexPrefix r with
    | some r' => (16, r')
    | none => if r.head? = some (charByte '0') then (8, r) else (10, r)
  else if base = 16 then (16, (hexPrefix r).getD r)
  else (base, r)

/-- The digit stage of `strtoSubject`: the longest run of digits of base `b`. -/
def subjectDigits (negative : Bool) (b : Nat) (r : Bytes) : Option (Bool × Nat × Bytes) :=
  let digits := r.takeWhile fun c => kAsciiToInt c < b
  if digits = [] then none
  else some (negative, numeral b digits, r.dropWhile fun c => kAsciiToInt c < b)

theorem strtoSubject_eq_stages (s : Bytes) (base : Nat) :
    strtoSubject s base =
      let (negative, r) := subjectSign (s.dropWhile isSpace)
      let (b, r) := subjectBase base r
      subjectDigits negative b r := rfl

section Nul

variable (s a : Bytes) {b : Nat}

theorem kAsciiToInt_nul : kAsciiToInt 0 = 36 := rfl

theorem dropWhile_append_nul : (s ++ 0 :: a).dropWhile isSpace = s.dropWhile isSpace ++ 0 :: a := by
  induction s with
  | nil => exact List.dropWhile_cons_of_neg (by decide)
  | cons c s ih => by_cases h : isSpace c <;> simp [List.dropWhile_cons, h, ih]

theorem subjectSign_append_nul :
    subjectSign (s ++ 0 :: a) = ((subjectSign s).1, (subjectSign s).2 ++ 0 :: a) := by
  rcases s with _ | ⟨c, r⟩
  · rfl
  · simp only [subjectSign, List.cons_append]
    split_ifs <;> rfl

theorem hexPrefix_append_nul : hexPrefix (s ++ 0 :: a) = (hexPrefix s).map (· ++ 0 :: a) := by
  rcases s with _ | ⟨c, _ | ⟨x, _ | ⟨h, rest⟩⟩⟩
  · exact hexPrefix_of_ne_zero (by decide) a
  · exact hexPrefix_eq_none fun x hx => by cases hx; decide
  · simp [hexPrefix, kAsciiToInt_nul]
  · simp only [hexPrefix, List.cons_append]; split_ifs <;> rfl

theorem head_append_nul :
    (s ++ 0 :: a).head? = some (charByte '0') ↔ s.head? = some (charByte '0') := by
  rcases s with _ | ⟨c, r⟩
  · exact ⟨fun h => absurd (Option.some.inj h) (by decide), fun h => by cases h⟩
  · rfl

theorem subjectBase_append_nul (base : Nat) :
    subjectBase base (s ++ 0 :: a) = ((subjectBase base s).1, (subjectBase base s).2 ++ 0 :: a) := by
  simp only [subjectBase, hexPrefix_append_nul, head_append_nul]
  rcases hexPrefix s with _ | r' <;> split_ifs <;> rfl

theorem subjectBase_le {base : Nat} (hb : base ≤ 36) : (subjectBase base s).1 ≤ 36 := by
  unfold subjectBase
  rcases hexPrefix s with _ | r' <;> split_ifs <;> dsimp only <;> omega

/-- A NUL ends every run of digits of a base up to 36. -/
theorem run_append_nul (hb : b ≤ 36) :
    ((s ++ 0 :: a).takeWhile fun c => kAsciiToInt c < b) = s.takeWhile (kAsciiToInt · < b) ∧
      ((s ++ 0 :: a).dropWhile fun c => kAsciiToInt c < b) =
        s.dropWhile (kAsciiToInt · < b) ++ 0 :: a := by
  induction s with
  | nil =>
    have h0 : ¬kAsciiToInt 0 < b := by rw [kAsciiToInt_nul]; omega
    simp [List.takeWhile_cons_of_neg, List.dropWhile_cons_of_neg, h0]
  | cons c r ih =>
    by_cases hc : kAsciiToInt c < b <;>
      simp [List.takeWhile_cons_of_pos, List.takeWhile_cons_of_neg, List.dropWhile_cons_of_pos,
        List.dropWhile_cons_of_neg, hc, ih]

theorem subjectDigits_append_nul (negative : Bool) (hb : b ≤ 36) :
    subjectDigits negative b (s ++ 0 :: a) =
      (subjectDigits negative b s).map fun (n, m, rest) => (n, m, rest ++ 0 :: a) := by
  obtain ⟨ht, hd⟩ := run_append_nul s a hb
  simp only [subjectDigits, ht, hd, apply_ite (Option.map _), Option.map_none', Option.map_some']

/-- **`strtol` reads nothing past a NUL**: in every base up to 36, what follows a NUL only
lengthens the bytes left after the numeral. -/
theorem strtoSubject_append_nul {base : Nat} (hb : base ≤ 36) :
    strtoSubject (s ++ 0 :: a) base =
      (strtoSubject s base).map fun (n, m, rest) => (n, m, rest ++ 0 :: a) := by
  rw [strtoSubject_eq_stages, strtoSubject_eq_stages, dropWhile_append_nul, subjectSign_append_nul]
  rcases subjectSign (s.dropWhile isSpace) with ⟨negative, r⟩
  dsimp only
  rw [subjectBase_append_nul]
  have hle := subjectBase_le r hb
  generalize subjectBase base r = p at hle ⊢
  exact subjectDigits_append_nul p.2 a negative hle

theorem strtol_append_nul (w : Nat) (hb : b ≤ 36) : strtol w (s ++ 0 :: a) b = strtol w s b := by
  simp only [strtol, strtoSubject_append_nul s a hb, Option.map_map]; rfl

theorem strtoul_append_nul (w : Nat) (hb : b ≤ 36) :
    strtoul w (s ++ 0 :: a) b = strtoul w s b := by
  simp only [strtoul, strtoSubject_append_nul s a hb, Option.map_map]; rfl

theorem strtou64_append_nul (hb : b ≤ 36) :
    strtou64 (s ++ 0 :: a) b = (strtou64 s b).map fun (v, rest) => (v, rest ++ 0 :: a) := by
  simp only [strtou64, strtoSubject_append_nul s a hb, Option.map_map]; rfl

theorem parseLeadingSigned_append_nul (dm : DataModel) (hb : b ≤ 36) (d : Int) :
    parseLeadingSigned dm b (s ++ 0 :: a) d = parseLeadingSigned dm b s d := by
  simp only [parseLeadingSigned, strtol_append_nul s a _ hb]

theorem parseLeadingUnsigned_append_nul (dm : DataModel) (hb : b ≤ 36) (d : BitVec 32) :
    parseLeadingUnsigned dm b (s ++ 0 :: a) d = parseLeadingUnsigned dm b s d := by
  simp only [parseLeadingUnsigned, strto64, strtol_append_nul s a _ hb, strtoul_append_nul s a _ hb]

theorem parseLeadingSigned64_append_nul (hb : b ≤ 36) (d : Int) :
    parseLeadingSigned64 b (s ++ 0 :: a) d = parseLeadingSigned64 b s d := by
  simp only [parseLeadingSigned64, strto64, strtol_append_nul s a _ hb]

theorem parseLeadingUnsigned64_append_nul (hb : b ≤ 36) (d : BitVec 64) :
    parseLeadingUnsigned64 b (s ++ 0 :: a) d = parseLeadingUnsigned64 b s d := by
  rw [parseLeadingUnsigned64, parseLeadingUnsigned64, strtou64_append_nul s a hb]
  rcases strtou64 s b with _ | ⟨v, rest⟩ <;> rfl

end Nul

/-- **No parser reads past a NUL.** For every string `s`, whatever follows a NUL after it,
under both data models and whatever the default, each of the nine parsers returns on `s`, a
NUL and the rest what it returns on `s`; for an empty `s` the NUL converts nothing, as
`str.empty()` does. So on a piece that a NUL follows in memory, the string the code hands the
library from `str.data()` on reads as the piece, which is what the model reads. -/
theorem parseLeading_append_nul (dm : DataModel) (s a : Bytes) (d : Int) (du : BitVec 32)
    (d64 : BitVec 64) :
    parseLeadingInt32Value dm (s ++ 0 :: a) d = parseLeadingInt32Value dm s d ∧
    parseLeadingUInt32Value dm (s ++ 0 :: a) du = parseLeadingUInt32Value dm s du ∧
    parseLeadingDec32Value dm (s ++ 0 :: a) d = parseLeadingDec32Value dm s d ∧
    parseLeadingUDec32Value dm (s ++ 0 :: a) du = parseLeadingUDec32Value dm s du ∧
    parseLeadingInt64Value (s ++ 0 :: a) d = parseLeadingInt64Value s d ∧
    parseLeadingUInt64Value (s ++ 0 :: a) d64 = parseLeadingUInt64Value s d64 ∧
    parseLeadingHex64Value (s ++ 0 :: a) d64 = parseLeadingHex64Value s d64 ∧
    parseLeadingDec64Value (s ++ 0 :: a) d = parseLeadingDec64Value s d ∧
    parseLeadingUDec64Value (s ++ 0 :: a) d64 = parseLeadingUDec64Value s d64 := by
  have h0 : (0 : Nat) ≤ 36 := by decide
  have h10 : (10 : Nat) ≤ 36 := by decide
  have h16 : (16 : Nat) ≤ 36 := by decide
  have hne : (s ++ 0 :: a).isEmpty = false := by cases s <;> rfl
  refine ⟨?_, ?_, parseLeadingSigned_append_nul s a dm h10 d,
    parseLeadingUnsigned_append_nul s a dm h10 du, parseLeadingSigned64_append_nul s a h0 d,
    parseLeadingUnsigned64_append_nul s a h0 d64, parseLeadingUnsigned64_append_nul s a h16 d64,
    parseLeadingSigned64_append_nul s a h10 d, parseLeadingUnsigned64_append_nul s a h10 d64⟩
  · rw [parseLeadingInt32Value, parseLeadingInt32Value, hne,
      parseLeadingSigned_append_nul s a dm h0]
    rcases s with _ | ⟨c, s⟩
    · rw [parseLeadingSigned_eq, leadingInt32, strtoSubject_nil]; rfl
    · rfl
  · rw [parseLeadingUInt32Value, parseLeadingUInt32Value, hne,
      parseLeadingUnsigned_append_nul s a dm h0]
    rcases s with _ | ⟨c, s⟩
    · rw [parseLeadingUnsigned_eq, leadingUInt32, strtoSubject_nil]; rfl
    · rfl

/-! ## The parsers on a converted numeral -/

section Converted

variable {str : Bytes} {base : Nat} {negative : Bool} {m : Nat} {rest : Bytes}

theorem ne_nil_of_strtoSubject (h : strtoSubject str base = some (negative, m, rest)) :
    str ≠ [] := by
  rintro rfl; rw [strtoSubject_nil] at h; cases h

/-- What the four parsers of one base return once `strtol` converted a numeral: the 32-bit
ones clamp or peg it, the 64-bit ones saturate it, and none returns its default. -/
theorem parsers_of_strtoSubject (h : strtoSubject str base = some (negative, m, rest))
    (dm : DataModel) (d : Int) (du : BitVec 32) (d64 : BitVec 64) :
    parseLeadingSigned dm base str d =
      (if negative then max (-(m : Int)) IntType.int32.min else min (m : Int) IntType.int32.max) ∧
    parseLeadingUnsigned dm base str du =
      BitVec.ofNat 32 (if m > uint32Max then uint32Max
        else if negative then (2 ^ 32 - m) % 2 ^ 32 else m) ∧
    parseLeadingSigned64 base str d =
      (if negative then max (-(m : Int)) (-2 ^ 63) else min (m : Int) (2 ^ 63 - 1)) ∧
    parseLeadingUnsigned64 base str d64 =
      BitVec.ofNat 64 (if m > 2 ^ 64 - 1 then 2 ^ 64 - 1
        else if negative then (2 ^ 64 - m) % 2 ^ 64 else m) := by
  refine ⟨?_, ?_, ?_, ?_⟩
  · rw [parseLeadingSigned_eq, leadingInt32, h]
  · rw [parseLeadingUnsigned_eq, leadingUInt32, h, apply_ite (BitVec.ofNat 32),
      apply_ite (BitVec.ofNat 32)]
  · rw [parseLeadingSigned64, strto64, strtol, h]; rfl
  · rw [parseLeadingUnsigned64, strtou64, h]; rfl

/-- Clamping a magnitude in the branch of its sign is clamping its signed value. -/
theorem clamp_signed (negative : Bool) (m : Nat) {lo hi : Int} (hlo : lo ≤ 0) (hhi : 0 ≤ hi) :
    (if negative then max (-(m : Int)) lo else min (m : Int) hi) =
      max (min (if negative then -(m : Int) else m) hi) lo := by
  cases negative <;> simp only [if_true, Bool.false_eq_true, if_false] <;> omega

/-- A magnitude that fits, negated modulo `2^w` after a `-`, is its signed value modulo
`2^w`. -/
theorem wrap_signed {w : Nat} (hw : w = 32 ∨ w = 64) (negative : Bool) {m : Nat}
    (hm : m ≤ 2 ^ w - 1) :
    BitVec.ofNat w (if m > 2 ^ w - 1 then 2 ^ w - 1
      else if negative then (2 ^ w - m) % 2 ^ w else m) =
      BitVec.ofInt w (if negative then -(m : Int) else m) := by
  rw [if_neg (Nat.not_lt.2 hm)]
  apply BitVec.eq_of_toNat_eq
  cases negative
  · simp only [Bool.false_eq_true, if_false, BitVec.toNat_ofNat, BitVec.toNat_ofInt]
    rcases hw with rfl | rfl <;> omega
  · simp only [if_true, BitVec.toNat_ofNat, BitVec.toNat_ofInt]
    rcases hw with rfl | rfl <;> omega

/-- The same, by the signed value `x` of the numeral: the signed parsers clamp `x`, and the
unsigned ones return it modulo `2^32` or `2^64` when the magnitude fits. -/
theorem parsers_of_strtoSubject_value (h : strtoSubject str base = some (negative, m, rest))
    {x : Int} (hx : x = if negative then -(m : Int) else m)
    (dm : DataModel) (d : Int) (du : BitVec 32) (d64 : BitVec 64) :
    parseLeadingSigned dm base str d = max (min x (2 ^ 31 - 1)) (-2 ^ 31) ∧
    (m ≤ uint32Max → parseLeadingUnsigned dm base str du = BitVec.ofInt 32 x) ∧
    parseLeadingSigned64 base str d = max (min x (2 ^ 63 - 1)) (-2 ^ 63) ∧
    (m ≤ 2 ^ 64 - 1 → parseLeadingUnsigned64 base str d64 = BitVec.ofInt 64 x) := by
  obtain ⟨s32, u32, s64, u64⟩ := parsers_of_strtoSubject h dm d du d64
  have hmin : IntType.int32.min = -2 ^ 31 := rfl
  have hmax : IntType.int32.max = 2 ^ 31 - 1 := rfl
  subst hx
  exact ⟨by rw [s32, hmin, hmax]; exact clamp_signed negative m (by decide) (by decide),
    fun hm => by rw [u32]; exact wrap_signed (.inl rfl) negative hm,
    by rw [s64]; exact clamp_signed negative m (by decide) (by decide),
    fun hm => by rw [u64]; exact wrap_signed (.inr rfl) negative hm⟩

/-- A sign in front of a numeral that starts with neither white space nor a sign: `strtol`
reads it, then the numeral as without it. -/
theorem strtoSubject_signed (negative : Bool) (hs : strtoSubject str base = some (false, m, rest))
    (hhead : ∀ c ∈ str.head?, isSpace c = false ∧ c ≠ charByte '-' ∧ c ≠ charByte '+') :
    strtoSubject ((if negative then [charByte '-'] else []) ++ str) base
      = some (negative, m, rest) := by
  obtain ⟨c, r, rfl⟩ := List.exists_cons_of_ne_nil (ne_nil_of_strtoSubject hs)
  rw [strtoSubject_sign negative (hhead c rfl), hs]; rfl

end Converted

/-- Base 0 reads what `decimal` writes, after an optional sign, as decimal: `0` as octal
`0`, any other value as its decimal digits. -/
theorem strtoSubject_zero_of_decimal (negative : Bool) (v : Nat) (rest : Bytes)
    (hrest : ∀ c ∈ rest.head?, 10 ≤ kAsciiToInt c ∧ c ≠ charByte 'x' ∧ c ≠ charByte 'X') :
    strtoSubject ((if negative then [charByte '-'] else []) ++ decimal v ++ rest) 0
      = some (negative, v, rest) := by
  obtain ⟨d, ds, hd⟩ := List.exists_cons_of_ne_nil (decimal_ne_nil v)
  have hdig : ∀ c ∈ decimal v, isDigit c = true := fun c hc => isDigit_of_mem_decimal hc
  have hdd : isDigit d = true := hdig d (hd ▸ List.mem_cons_self d ds)
  have hdd' : 48 ≤ d.toNat ∧ d.toNat ≤ 57 := by simpa [isDigit] using hdd
  have hc : isSpace d = false ∧ d ≠ charByte '-' ∧ d ≠ charByte '+' := by
    refine ⟨by simp [isSpace]; omega, ?_, ?_⟩ <;> intro h <;> subst h <;> revert hdd' <;> decide
  have hunsigned : strtoSubject (decimal v ++ rest) 0 = some (false, v, rest) := by
    by_cases hv : v = 0
    · subst hv
      have h := strtoSubject_zero_octal (k := 1) le_rfl (D := []) (by simp) rest
        (fun c hc => ⟨by have := (hrest c hc).1; omega, (hrest c hc).2⟩)
      have h1 : decimal 0 = pad 1 0 := by rw [decimal_of_lt (by norm_num)]; rfl
      rw [h1]; simpa using h
    · have hhead : ∀ c ∈ (decimal v).head?, c ≠ charByte '0' := fun c hc h =>
        hv (eq_zero_of_decimal_head (by rw [Option.mem_def.1 hc, h]; rfl))
      rw [strtoSubject_zero_decimal (decimal_ne_nil v) hhead hdig rest
        (fun c hc => (hrest c hc).1), numeral_decimal]
  rw [List.append_assoc]
  exact strtoSubject_signed negative hunsigned (by rw [hd]; rintro c ⟨⟩; exact hc)

/-! ## Leading zeroes -/

/-- **`ParseLeadingDec64Value` and `ParseLeadingUDec64Value` read decimal numbers with
leading zeroes**, as their comment says (`strings/numbers.cc:158`): on a piece that a NUL
follows, any number of `'0'`s and then the decimal digits of `v` read as `v`, saturated at the
type's bounds by `strto64` and `strtou64`, whatever the default. -/
theorem parseLeadingDec64Value_leading_zeros (k v : Nat) (rest : Bytes)
    (hrest : ∀ c ∈ rest.head?, 10 ≤ kAsciiToInt c) (negative : Bool) (deflt : Int)
    (udeflt : BitVec 64) :
    parseLeadingDec64Value
        ((if negative then [charByte '-'] else []) ++ pad k 0 ++ decimal v ++ rest) deflt =
      (if negative then max (-(v : Int)) (-2 ^ 63) else min (v : Int) (2 ^ 63 - 1)) ∧
    parseLeadingUDec64Value (pad k 0 ++ decimal v ++ rest) udeflt =
      BitVec.ofNat 64 (min v (2 ^ 64 - 1)) := by
  have hu := strtoSubject_decimal false k v rest hrest
  simp only [Bool.false_eq_true, if_false, List.nil_append] at hu
  constructor
  · rw [parseLeadingDec64Value, parseLeadingSigned64, strto64, strtol,
      strtoSubject_decimal negative k v rest hrest]
    rfl
  · rw [parseLeadingUDec64Value, parseLeadingUnsigned64, strtou64, hu]
    simp only [Option.map_some', Bool.false_eq_true, if_false]
    congr 1
    split_ifs <;> omega

/-- `"007ms"` reads as `7` in both decimal parsers. -/
theorem parseLeadingDec64Value_007ms :
    (∀ c ∈ (bytes "ms").head?, 10 ≤ kAsciiToInt c) ∧
    (parseLeadingDec64Value
        ((if false then [charByte '-'] else []) ++ pad 2 0 ++ decimal 7 ++ bytes "ms") 0 =
      (if false then max (-(7 : Int)) (-2 ^ 63) else min (7 : Int) (2 ^ 63 - 1)) ∧
    parseLeadingUDec64Value (pad 2 0 ++ decimal 7 ++ bytes "ms") 0 =
      BitVec.ofNat 64 (min 7 (2 ^ 64 - 1))) :=
  ⟨by decide, parseLeadingDec64Value_leading_zeros 2 7 (bytes "ms") (by decide) false 0 0⟩

theorem min_eq_ite (m M x : Nat) :
    (if m > M then M else if false = true then x else m) = min m M := by
  simp only [Bool.false_eq_true, if_false]; split_ifs <;> omega

/-- **The base-0 parsers read a number with a leading zero as octal**, which is what their
comments mean by "cannot handle decimal numbers with leading 0s" (`strings/numbers.cc:40`
and `:137`): on a piece that a NUL follows, made of a sign, one or more `'0'`s, octal digits
`D` and a byte that is no octal digit and no `x`, `ParseLeadingInt32Value`, `ParseLeadingInt64Value`,
`ParseLeadingUInt32Value` and `ParseLeadingUInt64Value` return the octal value of `D`,
saturated at the type's bounds, under both data models and whatever the default. -/
theorem parseLeading_leading_zero_octal (dm : DataModel) {k : Nat} (hk : 1 ≤ k) {D : Bytes}
    (hD : ∀ c ∈ D, kAsciiToInt c < 8) (rest : Bytes)
    (hrest : ∀ c ∈ rest.head?, 8 ≤ kAsciiToInt c ∧ c ≠ charByte 'x' ∧ c ≠ charByte 'X')
    (negative : Bool) (d : Int) (du : BitVec 32) (d64 : BitVec 64) :
    parseLeadingInt32Value dm ((if negative then [charByte '-'] else []) ++ pad k 0 ++ D ++ rest) d
      = (if negative then max (-(numeral 8 D : Int)) (-2 ^ 31)
          else min (numeral 8 D : Int) (2 ^ 31 - 1)) ∧
    parseLeadingInt64Value ((if negative then [charByte '-'] else []) ++ pad k 0 ++ D ++ rest) d
      = (if negative then max (-(numeral 8 D : Int)) (-2 ^ 63)
          else min (numeral 8 D : Int) (2 ^ 63 - 1)) ∧
    parseLeadingUInt32Value dm (pad k 0 ++ D ++ rest) du
      = BitVec.ofNat 32 (min (numeral 8 D) (2 ^ 32 - 1)) ∧
    parseLeadingUInt64Value (pad k 0 ++ D ++ rest) d64
      = BitVec.ofNat 64 (min (numeral 8 D) (2 ^ 64 - 1)) := by
  have hu := strtoSubject_zero_octal hk hD rest hrest
  have hhead : ∀ c ∈ (pad k 0 ++ D ++ rest).head?,
      isSpace c = false ∧ c ≠ charByte '-' ∧ c ≠ charByte '+' := by
    obtain ⟨j, rfl⟩ : ∃ j, k = j + 1 := ⟨k - 1, by omega⟩
    rw [pad_zero, List.replicate_succ]
    rintro c ⟨⟩
    decide
  have hs := strtoSubject_signed negative hu hhead
  rw [← List.append_assoc, ← List.append_assoc] at hs
  obtain ⟨h32, -, h64, -⟩ := parsers_of_strtoSubject hs dm d du d64
  obtain ⟨-, hu32, -, hu64⟩ := parsers_of_strtoSubject hu dm d du d64
  refine ⟨?_, h64, ?_, by rw [parseLeadingUInt64Value, hu64, min_eq_ite]⟩
  · rw [parseLeadingInt32Value, if_neg (by simpa using ne_nil_of_strtoSubject hs), h32]; rfl
  · rw [parseLeadingUInt32Value, if_neg (by simpa using ne_nil_of_strtoSubject hu), hu32,
      min_eq_ite]; rfl

/-- `"0123"` is `83` to the base-0 parsers. -/
theorem parseLeading_0123 :
    numeral 8 (bytes "123") = 83 ∧ 1 ≤ 1 ∧ (∀ c ∈ bytes "123", kAsciiToInt c < 8) ∧
    (∀ c ∈ ([] : Bytes).head?, 8 ≤ kAsciiToInt c ∧ c ≠ charByte 'x' ∧ c ≠ charByte 'X') ∧
    (parseLeadingInt32Value .lp64 ((if false then [charByte '-'] else []) ++ pad 1 0 ++ bytes "123" ++ []) 0
      = (if false then max (-(numeral 8 (bytes "123") : Int)) (-2 ^ 31)
          else min (numeral 8 (bytes "123") : Int) (2 ^ 31 - 1)) ∧
    parseLeadingInt64Value ((if false then [charByte '-'] else []) ++ pad 1 0 ++ bytes "123" ++ []) 0
      = (if false then max (-(numeral 8 (bytes "123") : Int)) (-2 ^ 63)
          else min (numeral 8 (bytes "123") : Int) (2 ^ 63 - 1)) ∧
    parseLeadingUInt32Value .lp64 (pad 1 0 ++ bytes "123" ++ []) 0
      = BitVec.ofNat 32 (min (numeral 8 (bytes "123")) (2 ^ 32 - 1)) ∧
    parseLeadingUInt64Value (pad 1 0 ++ bytes "123" ++ []) 0
      = BitVec.ofNat 64 (min (numeral 8 (bytes "123")) (2 ^ 64 - 1))) :=
  ⟨by decide, le_rfl, by decide, by decide,
    parseLeading_leading_zero_octal .lp64 le_rfl (by decide) [] (by decide) false 0 0 0⟩

/-- The byte `strtol` takes first for a digit: the one after the leading white space and an
optional sign, if any. -/
def numeralStart (s : Bytes) : Option UInt8 :=
  match s.dropWhile isSpace with
  | c :: r => if c = charByte '-' ∨ c = charByte '+' then r.head? else some c
  | [] => none

/-- Where the numeral does not start with `'0'`, base 0 is base 10: no prefix is taken and no
octal is read. -/
theorem strtoSubject_zero_eq_ten {s : Bytes} (h : ∀ c ∈ numeralStart s, c ≠ charByte '0') :
    strtoSubject s 0 = strtoSubject s 10 := by
  unfold numeralStart at h
  unfold strtoSubject
  rcases ht : s.dropWhile isSpace with _ | ⟨c, r⟩
  · rfl
  rw [ht] at h
  obtain ⟨negative, r', he, hr'⟩ : ∃ negative r',
      (if c = charByte '-' then (true, r) else if c = charByte '+' then (false, r)
        else (false, c :: r)) = (negative, r') ∧ ∀ x ∈ r'.head?, x ≠ charByte '0' := by
    simp only [] at h
    by_cases hm : c = charByte '-'
    · rw [if_pos hm]; rw [if_pos (.inl hm)] at h; exact ⟨_, _, rfl, h⟩
    by_cases hp : c = charByte '+'
    · rw [if_neg hm, if_pos hp]; rw [if_pos (.inr hp)] at h; exact ⟨_, _, rfl, h⟩
    · rw [if_neg hm, if_neg hp]; rw [if_neg (not_or.2 ⟨hm, hp⟩)] at h; exact ⟨_, _, rfl, h⟩
  have hnone : hexPrefix r' = none := by
    rcases r' with _ | ⟨d, r''⟩
    · rfl
    · exact hexPrefix_of_ne_zero (hr' d rfl) _
  have hhead : ¬r'.head? = some (charByte '0') := fun e => hr' _ e rfl
  simp only [he, hnone, if_neg hhead, if_true, if_neg (show (10 : Nat) ≠ 0 by decide),
    if_neg (show (10 : Nat) ≠ 16 by decide)]

/-- **Base 0 and base 10 differ only on a leading `0`.** On every piece that a NUL follows
and whose numeral does not start with `'0'`, the empty piece included, the base-0 parsers
`ParseLeadingInt32Value`, `ParseLeadingUInt32Value`, `ParseLeadingInt64Value` and
`ParseLeadingUInt64Value` return what their decimal counterparts return, under both data
models and whatever the default; with `parseLeading_leading_zero_octal` this is all the
difference. -/
theorem parseLeading_base_zero_eq_decimal (dm : DataModel) {s : Bytes}
    (h : ∀ c ∈ numeralStart s, c ≠ charByte '0') (d : Int) (du : BitVec 32) (d64 : BitVec 64) :
    parseLeadingInt32Value dm s d = parseLeadingDec32Value dm s d ∧
    parseLeadingUInt32Value dm s du = parseLeadingUDec32Value dm s du ∧
    parseLeadingInt64Value s d = parseLeadingDec64Value s d ∧
    parseLeadingUInt64Value s d64 = parseLeadingUDec64Value s d64 := by
  have hz := strtoSubject_zero_eq_ten h
  have hempty : s.isEmpty = true → strtoSubject s 10 = none := fun he => by
    rw [List.isEmpty_iff.1 he, strtoSubject_nil]
  refine ⟨?_, ?_, ?_, ?_⟩
  · rw [parseLeadingInt32Value, parseLeadingDec32Value, parseLeadingSigned_eq,
      parseLeadingSigned_eq, leadingInt32, leadingInt32, hz]
    split
    · rw [hempty ‹_›]
    · rfl
  · rw [parseLeadingUInt32Value, parseLeadingUDec32Value, parseLeadingUnsigned_eq,
      parseLeadingUnsigned_eq, leadingUInt32, leadingUInt32, hz]
    split
    · rw [hempty ‹_›]
    · rfl
  · simp only [parseLeadingInt64Value, parseLeadingDec64Value, parseLeadingSigned64, strto64,
      strtol, hz]
  · simp only [parseLeadingUInt64Value, parseLeadingUDec64Value, parseLeadingUnsigned64,
      strtou64, hz]

/-- `" -42"` reads alike in base 0 and base 10. -/
theorem parseLeading_base_zero_minus_42 :
    (∀ c ∈ numeralStart (bytes " -42"), c ≠ charByte '0') ∧
    parseLeadingInt32Value .lp64 (bytes " -42") 0 = parseLeadingDec32Value .lp64 (bytes " -42") 0 ∧
    parseLeadingUInt32Value .lp64 (bytes " -42") 0 =
      parseLeadingUDec32Value .lp64 (bytes " -42") 0 ∧
    parseLeadingInt64Value (bytes " -42") 0 = parseLeadingDec64Value (bytes " -42") 0 ∧
    parseLeadingUInt64Value (bytes " -42") 0 = parseLeadingUDec64Value (bytes " -42") 0 :=
  have h : ∀ c ∈ numeralStart (bytes " -42"), c ≠ charByte '0' := by decide
  ⟨h, parseLeading_base_zero_eq_decimal .lp64 h 0 0 0⟩

/-! ## The 32-bit parsers against the 64-bit ones -/

theorem parseLeadingSigned_clamps {d : Int} (hd : -2 ^ 31 ≤ d ∧ d ≤ 2 ^ 31 - 1) (dm : DataModel)
    (base : Nat) (s : Bytes) :
    parseLeadingSigned dm base s d =
      max (min (parseLeadingSigned64 base s d) (2 ^ 31 - 1)) (-2 ^ 31) := by
  rcases h : strtoSubject s base with _ | ⟨negative, m, rest⟩
  · simp only [parseLeadingSigned_eq, leadingInt32, h, parseLeadingSigned64, strto64, strtol,
      Option.map_none', Option.getD_none]
    omega
  · obtain ⟨s32, -, s64, -⟩ := parsers_of_strtoSubject_value h rfl dm d 0 0
    rw [s32, s64]
    omega

/-- **The signed 32-bit parsers are the 64-bit ones clamped to `int32`.** For every piece that
a NUL follows, the empty one included (where the 32-bit parser's `str.empty()` test and the
64-bit one's empty conversion both give the default), under both data models and for every
default that is an `int32`, `ParseLeadingInt32Value` returns `ParseLeadingInt64Value`
clamped to `[INT32_MIN, INT32_MAX]`, and `ParseLeadingDec32Value` returns
`ParseLeadingDec64Value` clamped. -/
theorem parseLeading32_clamps_64 (dm : DataModel) (s : Bytes) {d : Int}
    (hd : -2 ^ 31 ≤ d ∧ d ≤ 2 ^ 31 - 1) :
    parseLeadingInt32Value dm s d =
      max (min (parseLeadingInt64Value s d) (2 ^ 31 - 1)) (-2 ^ 31) ∧
    parseLeadingDec32Value dm s d =
      max (min (parseLeadingDec64Value s d) (2 ^ 31 - 1)) (-2 ^ 31) := by
  refine ⟨?_, parseLeadingSigned_clamps hd dm 10 s⟩
  rw [parseLeadingInt32Value, parseLeadingInt64Value]
  split
  · rename_i he
    rw [List.isEmpty_iff.1 he, parseLeadingSigned64, strto64, strtol, strtoSubject_nil,
      Option.map_none', Option.getD_none]
    omega
  · exact parseLeadingSigned_clamps hd dm 0 s

/-- `"3000000000"` is `INT32_MAX` to `ParseLeadingInt32Value`, and itself to
`ParseLeadingInt64Value`. -/
theorem parseLeading32_clamps_3e9 :
    (-2 ^ 31 ≤ (7 : Int) ∧ (7 : Int) ≤ 2 ^ 31 - 1) ∧
    parseLeadingInt64Value (bytes "3000000000") 7 = 3000000000 ∧
    parseLeadingInt32Value .lp64 (bytes "3000000000") 7 =
      max (min (parseLeadingInt64Value (bytes "3000000000") 7) (2 ^ 31 - 1)) (-2 ^ 31) ∧
    parseLeadingDec32Value .lp64 (bytes "3000000000") 7 =
      max (min (parseLeadingDec64Value (bytes "3000000000") 7) (2 ^ 31 - 1)) (-2 ^ 31) :=
  have hd : -2 ^ 31 ≤ (7 : Int) ∧ (7 : Int) ≤ 2 ^ 31 - 1 := by decide
  ⟨hd, by decide, parseLeading32_clamps_64 .lp64 (bytes "3000000000") hd⟩

end Gaia.Numbers
