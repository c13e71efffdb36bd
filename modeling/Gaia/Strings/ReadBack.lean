/-
The writers of `strings/numbers.cc` against its readers.

`FastUInt32ToBufferLeft`, `IntToString`, `Int64ToString` and `UInt64ToString` write numbers
(`strings/numbers.cc:493`, `:965`-`:978`); the `ParseLeading*Value` parsers,
`safe_strto32_base`, `safe_strto64_base` and `atoi_kmgt` read them back. Each result here
takes one writer and says what every reader makes of its output, for every value the writer
can be given: a reader as wide as the writer returns the value bit for bit, and a narrower
one clamps or pegs it as its own comment says. `ParseLeadingHex64Value` reads decimal
digits as hex and is left out.

What each writer leaves is found once (`fastUInt32ToBufferLeft_writes`,
`strtoSubject_padField_printInt`), and what each reader returns on it comes from
`parsers_of_strtoSubject_value`.
-/
import Gaia.Strings.FastToBuffer
import Gaia.Strings.IntToString
import Gaia.Strings.Kmgt

set_option autoImplicit false

namespace Gaia.Numbers

open Ascii

/-! ## What the writers leave -/

/-- `FastUInt32ToBufferLeft` leaves the decimal digits of `u` and a NUL at `buffer`. -/
theorem fastUInt32ToBufferLeft_writes (u : BitVec 32) :
    (fastUInt32ToBufferLeft u).writes = (decimal u.toNat ++ [0]).enum := by
  obtain ⟨k, hk, -, he⟩ := fastUInt32ToBufferLeft_emits u
  rw [he.writes, ← hk]; rfl

theorem zero_not_mem_decimal (n : Nat) : (0 : UInt8) ∉ decimal n := fun h => by
  have := isDigit_of_mem_decimal h; revert this; decide

/-- Leading blanks are skipped before the subject sequence. -/
theorem strtoSubject_spaces (n : Nat) (s : Bytes) (base : Nat) :
    strtoSubject (List.replicate n (charByte ' ') ++ s) base = strtoSubject s base := by
  have h : (List.replicate n (charByte ' ') ++ s).dropWhile isSpace = s.dropWhile isSpace :=
    List.dropWhile_append_of_pos fun c hc => by rw [(List.mem_replicate.1 hc).2]; rfl
  unfold strtoSubject; rw [h]

/-- What `%d` prints in a field of any width reads, in base 0 and in base 10, as its sign
and magnitude, with nothing after. -/
theorem strtoSubject_padField_printInt (k : Nat) (x : Int) {base : Nat}
    (hb : base = 0 ∨ base = 10) :
    strtoSubject (padField k (printInt x)) base = some (decide (x < 0), x.natAbs, []) := by
  have hsign : (if x < 0 then [charByte '-'] else []) =
      if decide (x < 0) then [charByte '-'] else [] := by simp only [decide_eq_true_eq]
  rw [padField, strtoSubject_spaces, printInt, hsign]
  rcases hb with rfl | rfl
  · simpa using strtoSubject_zero_of_decimal (decide (x < 0)) x.natAbs [] (by simp)
  · simpa [pad] using strtoSubject_decimal (decide (x < 0)) 0 x.natAbs [] (by simp)

theorem strtoSubject_decimal_end (v : Nat) {base : Nat} (hb : base = 0 ∨ base = 10) :
    strtoSubject (decimal v) base = some (false, v, []) := by
  simpa [padField, printInt] using strtoSubject_padField_printInt 0 v hb

/-- `atoi_kmgt` on a numeral with nothing after it: no unit, the value. -/
theorem atoiKmgt_of_strtou64 {s : Bytes} {n : Nat} (h : strtou64 s 10 = some (n, [])) :
    atoiKmgt s = .ok (n % 2 ^ 64) := by
  simp only [atoiKmgt, h, Option.getD_some, List.headD_nil, ne_eq, not_true_eq_false, if_false]
  show Except.ok (n * 1 % 2 ^ 64) = _
  rw [Nat.mul_one]

/-! ## What the readers return -/

section Readers

variable {x : Int}

theorem signed_natAbs : (if decide (x < 0) then -(x.natAbs : Int) else x.natAbs) = x := by
  simp only [decide_eq_true_eq]; split <;> omega

theorem ofInt_toInt_32 (i : BitVec 32) : BitVec.ofInt 32 i.toInt = i := by
  apply BitVec.eq_of_toNat_eq
  have := i.isLt
  rw [BitVec.toNat_ofInt, BitVec.toInt_eq_toNat_cond]
  split_ifs <;> omega

theorem ofInt_toInt_64 (i : BitVec 64) : BitVec.ofInt 64 i.toInt = i := by
  apply BitVec.eq_of_toNat_eq
  have := i.isLt
  rw [BitVec.toNat_ofInt, BitVec.toInt_eq_toNat_cond]
  split_ifs <;> omega

variable {str : Bytes} (h : ∀ base, base = 0 ∨ base = 10 →
  strtoSubject str base = some (decide (x < 0), x.natAbs, []))
include h

/-- The four 64-bit decimal and base-0 parsers on a string that `strtol` reads, in both
bases, as the integer `x` and nothing after: the signed ones saturate `x`, the unsigned ones
take it modulo `2^64`. -/
theorem readers64_of_int (d : Int) (d64 : BitVec 64)
    (hx1 : -(2 ^ 64 - 1 : Int) ≤ x) (hx2 : x ≤ 2 ^ 64 - 1) :
    parseLeadingInt64Value str d = max (min x (2 ^ 63 - 1)) (-2 ^ 63) ∧
    parseLeadingDec64Value str d = max (min x (2 ^ 63 - 1)) (-2 ^ 63) ∧
    parseLeadingUInt64Value str d64 = BitVec.ofInt 64 x ∧
    parseLeadingUDec64Value str d64 = BitVec.ofInt 64 x := by
  obtain ⟨-, -, l0, v0⟩ :=
    parsers_of_strtoSubject_value (h 0 (.inl rfl)) signed_natAbs.symm .lp64 d 0 d64
  obtain ⟨-, -, l10, v10⟩ :=
    parsers_of_strtoSubject_value (h 10 (.inr rfl)) signed_natAbs.symm .lp64 d 0 d64
  have hm : x.natAbs ≤ 2 ^ 64 - 1 := by omega
  exact ⟨by rw [parseLeadingInt64Value, l0], by rw [parseLeadingDec64Value, l10],
    by rw [parseLeadingUInt64Value, v0 hm], by rw [parseLeadingUDec64Value, v10 hm]⟩

/-- The four 32-bit parsers on such a string, under either data model: the signed ones clamp
`x` to `int32`, the unsigned ones take it modulo `2^32`. -/
theorem readers32_of_int (dm : DataModel) (d : Int) (du : BitVec 32)
    (hx1 : -(2 ^ 32 - 1 : Int) ≤ x) (hx2 : x ≤ 2 ^ 32 - 1) :
    parseLeadingInt32Value dm str d = max (min x (2 ^ 31 - 1)) (-2 ^ 31) ∧
    parseLeadingDec32Value dm str d = max (min x (2 ^ 31 - 1)) (-2 ^ 31) ∧
    parseLeadingUInt32Value dm str du = BitVec.ofInt 32 x ∧
    parseLeadingUDec32Value dm str du = BitVec.ofInt 32 x := by
  have hne : ¬str.isEmpty = true := by
    simpa using ne_nil_of_strtoSubject (h 10 (.inr rfl))
  obtain ⟨s0, u0, -, -⟩ :=
    parsers_of_strtoSubject_value (h 0 (.inl rfl)) signed_natAbs.symm dm d du 0
  obtain ⟨s10, u10, -, -⟩ :=
    parsers_of_strtoSubject_value (h 10 (.inr rfl)) signed_natAbs.symm dm d du 0
  have hm : x.natAbs ≤ uint32Max := by rw [uint32Max]; omega
  exact ⟨by rw [parseLeadingInt32Value, if_neg hne, s0], by rw [parseLeadingDec32Value, s10],
    by rw [parseLeadingUInt32Value, if_neg hne, u0 hm], by rw [parseLeadingUDec32Value, u10 hm]⟩

end Readers

/-! ## The round trips -/

/-- **Every reader reads back what `FastUInt32ToBufferLeft` writes.** For every `uint32`
`u`, the function leaves a NUL-terminated string `s` at `buffer`, and under both data models
and whatever the default: the unsigned 32-bit parsers return `u`, the 64-bit ones `u`
widened, the signed 32-bit ones `u` clamped at `INT32_MAX`; `atoi_kmgt` returns `u`;
`safe_strto64_base` in base 0 and 10 accepts it as `u`, and `safe_strto32_base` accepts it
exactly when `u` fits an `int32`. -/
theorem fastUInt32ToBufferLeft_read_back (u : BitVec 32) (dm : DataModel) (d v : Int)
    (du : BitVec 32) (d64 : BitVec 64) :
    ∃ s : Bytes, (fastUInt32ToBufferLeft u).writes = (s ++ [0]).enum ∧ (0 : UInt8) ∉ s ∧
      parseLeadingUInt32Value dm s du = u ∧ parseLeadingUDec32Value dm s du = u ∧
      parseLeadingInt32Value dm s d = min (u.toNat : Int) (2 ^ 31 - 1) ∧
      parseLeadingDec32Value dm s d = min (u.toNat : Int) (2 ^ 31 - 1) ∧
      parseLeadingUInt64Value s d64 = u.setWidth 64 ∧
      parseLeadingUDec64Value s d64 = u.setWidth 64 ∧
      parseLeadingInt64Value s d = u.toNat ∧ parseLeadingDec64Value s d = u.toNat ∧
      atoiKmgt s = .ok u.toNat ∧
      ∀ base : Int, base = 0 ∨ base = 10 →
        safeStrto64Base s v base = some (true, (u.toNat : Int)) ∧
        safeStrto32Base s v base =
          some (if u.toNat < 2 ^ 31 then (true, (u.toNat : Int)) else (false, v)) := by
  have hu := u.isLt
  have hs : ∀ base, base = 0 ∨ base = 10 → strtoSubject (decimal u.toNat) base =
      some (decide ((u.toNat : Int) < 0), (u.toNat : Int).natAbs, []) := fun base hb => by
    simpa using strtoSubject_decimal_end u.toNat hb
  obtain ⟨i32, d32, u32, ud32⟩ := readers32_of_int hs dm d du (by omega) (by omega)
  obtain ⟨i64, d64', u64, ud64⟩ := readers64_of_int hs d d64 (by omega) (by omega)
  have h32 : BitVec.ofInt 32 (u.toNat : Int) = u := by
    apply BitVec.eq_of_toNat_eq; rw [BitVec.toNat_ofInt]; omega
  have h64 : BitVec.ofInt 64 (u.toNat : Int) = u.setWidth 64 := by
    apply BitVec.eq_of_toNat_eq; rw [BitVec.toNat_ofInt, BitVec.toNat_setWidth]; omega
  have hpad : padField 0 (printInt u.toNat) = decimal u.toNat := by
    rw [padField_zero, printInt_natCast]
  have hkmgt : strtou64 (decimal u.toNat) 10 = some (u.toNat, []) := by
    rw [strtou64, strtoSubject_decimal_end u.toNat (.inr rfl)]
    simp only [Option.map_some', Bool.false_eq_true, if_false]
    rw [if_neg (by omega)]
  refine ⟨decimal u.toNat, fastUInt32ToBufferLeft_writes u, zero_not_mem_decimal _,
    u32.trans h32, ud32.trans h32, by rw [i32]; omega, by rw [d32]; omega, u64.trans h64,
    ud64.trans h64, by rw [i64]; omega, by rw [d64']; omega,
    by rw [atoiKmgt_of_strtou64 hkmgt, Nat.mod_eq_of_lt (by omega)], fun base hb => ?_⟩
  have hmax := IntType.max_ge
  rw [safeStrto64Base, safeStrto32Base, ← hpad, safeIntInternal_padField_printInt _ _ _ _ hb,
    safeIntInternal_padField_printInt _ _ _ _ hb]
  have h64r : IntType.int64.min ≤ (u.toNat : Int) ∧ (u.toNat : Int) ≤ IntType.int64.max :=
    ⟨by rw [IntType.min_eq]; have := hmax .int64; omega,
      by show (u.toNat : Int) ≤ 2 ^ 63 - 1; omega⟩
  have h32r : (IntType.int32.min ≤ (u.toNat : Int) ∧ (u.toNat : Int) ≤ IntType.int32.max) ↔
      u.toNat < 2 ^ 31 := by
    show (-2 ^ 31 ≤ (u.toNat : Int) ∧ (u.toNat : Int) ≤ 2 ^ 31 - 1) ↔ _; omega
  rw [if_pos h64r]
  exact ⟨rfl, by simp only [h32r]⟩

/-- **The signed and unsigned parsers read back what `IntToString` prints.** For every
`int` `i` and under both data models, whatever the default: the signed parsers return `i`,
the unsigned 32-bit ones the same 32 bits, and the unsigned 64-bit ones `i` taken modulo
`2^64`, which is `i` sign-extended. -/
theorem intToString_read_back (i : BitVec 32) (dm : DataModel) (d : Int) (du : BitVec 32)
    (d64 : BitVec 64) :
    ∃ out, intToString i = some out ∧
      parseLeadingInt32Value dm out d = i.toInt ∧ parseLeadingDec32Value dm out d = i.toInt ∧
      parseLeadingUInt32Value dm out du = i ∧ parseLeadingUDec32Value dm out du = i ∧
      parseLeadingInt64Value out d = i.toInt ∧ parseLeadingDec64Value out d = i.toInt ∧
      parseLeadingUInt64Value out d64 = BitVec.ofInt 64 i.toInt ∧
      parseLeadingUDec64Value out d64 = BitVec.ofInt 64 i.toInt := by
  have hr := IntType.toInt_mem .int32 i
  have hmin : IntType.int32.min = -2 ^ 31 := rfl
  have hmax : IntType.int32.max = 2 ^ 31 - 1 := rfl
  rw [hmin, hmax] at hr
  have hs := fun base (hb : base = 0 ∨ base = 10) => strtoSubject_padField_printInt 7 i.toInt hb
  obtain ⟨i32, d32, u32, ud32⟩ := readers32_of_int hs dm d du (by omega) (by omega)
  obtain ⟨i64, d64', u64, ud64⟩ := readers64_of_int hs d d64 (by omega) (by omega)
  exact ⟨_, intToString_eq i, by rw [i32]; omega, by rw [d32]; omega,
    u32.trans (ofInt_toInt_32 i), ud32.trans (ofInt_toInt_32 i), by rw [i64]; omega,
    by rw [d64']; omega, u64, ud64⟩

/-- **The 64-bit parsers read back what `Int64ToString` and `UInt64ToString` print.** Under
both data models and whatever the default: for every `int64` `i`, the signed parsers return
`i` and the unsigned ones the same 64 bits; for every `uint64` `u`, the unsigned parsers and
`atoi_kmgt` return `u`, and the signed ones `u` saturated at `INT64_MAX`. -/
theorem int64ToString_read_back (dm : DataModel) (i u : BitVec 64) (d : Int) (d64 : BitVec 64) :
    (∃ out, int64ToString dm i = some out ∧
      parseLeadingInt64Value out d = i.toInt ∧ parseLeadingDec64Value out d = i.toInt ∧
      parseLeadingUInt64Value out d64 = i ∧ parseLeadingUDec64Value out d64 = i) ∧
    (∃ out, uInt64ToString dm u = some out ∧
      parseLeadingUInt64Value out d64 = u ∧ parseLeadingUDec64Value out d64 = u ∧
      parseLeadingInt64Value out d = min (u.toNat : Int) (2 ^ 63 - 1) ∧
      parseLeadingDec64Value out d = min (u.toNat : Int) (2 ^ 63 - 1) ∧
      atoiKmgt out = .ok u.toNat) := by
  have hr := IntType.toInt_mem .int64 i
  have hmin : IntType.int64.min = -2 ^ 63 := rfl
  have hmax : IntType.int64.max = 2 ^ 63 - 1 := rfl
  rw [hmin, hmax] at hr
  have hu := u.isLt
  have hi := fun base (hb : base = 0 ∨ base = 10) => strtoSubject_padField_printInt 7 i.toInt hb
  have hs := fun base (hb : base = 0 ∨ base = 10) =>
    strtoSubject_padField_printInt 7 (u.toNat : Int) hb
  obtain ⟨i64, d64i, u64, ud64⟩ := readers64_of_int hi d d64 (by omega) (by omega)
  obtain ⟨i64u, d64u, u64u, ud64u⟩ := readers64_of_int hs d d64 (by omega) (by omega)
  have hofInt : BitVec.ofInt 64 (u.toNat : Int) = u := by
    apply BitVec.eq_of_toNat_eq; rw [BitVec.toNat_ofInt]; omega
  have hkmgt : strtou64 (padField 7 (printInt u.toNat)) 10 = some (u.toNat, []) := by
    rw [strtou64, hs 10 (.inr rfl)]
    simp only [Option.map_some', Int.natAbs_ofNat, decide_eq_true_eq,
      Int.not_lt.2 (Int.natCast_nonneg _), decide_False, Bool.false_eq_true, if_false]
    rw [if_neg (by omega)]
  refine ⟨⟨_, int64ToString_eq dm i, by rw [i64]; omega, by rw [d64i]; omega,
    u64.trans (ofInt_toInt_64 i), ud64.trans (ofInt_toInt_64 i)⟩,
    ⟨_, uInt64ToString_eq dm u, u64u.trans hofInt, ud64u.trans hofInt, by rw [i64u]; omega,
    by rw [d64u]; omega, by rw [atoiKmgt_of_strtou64 hkmgt, Nat.mod_eq_of_lt hu]⟩⟩

end Gaia.Numbers
