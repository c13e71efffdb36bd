/-
`ItoaKMGT` and `atoi_kmgt` (`strings/numbers.cc:423`-`449`, `904`-`938`).

`ItoaKMGT` is documented as the opposite of `atoi_kmgt`: it picks the largest unit of
`T`, `G`, `M`, `K` (`2^40` down to `2^10`) of which the magnitude holds more than one, and
prints the magnitude in that unit with `StringPrintf("%s%" PRId64 "d%s", sign, val, suffix)`.
`PRId64` is already a whole length modifier and conversion, `"ld"` or `"lld"`, so the format
is `"%s%ldd%s"`: a stray `'d'` is printed between the number and the unit. `atoi_kmgt` reads
the number back with `strtou64` and then the byte at `endptr`, which is that `'d'`; it is
none of `K`, `M`, `G`, `T`, and `atoi_kmgt` ends in `LOG(FATAL)`
(`atoiKmgt_itoaKMGT`, for every `int64` and under both data models).

`strtou64` (`strings/strtoint.h`) is not under `src/`; it is modelled as `strtoull`. `LOG(FATAL)` aborts the process: it is
`Except.error` with the message it logs.

Without the stray `'d'` the design holds: `atoi_kmgt` reads a numeral followed by a unit
as the numeral times the unit (`atoiKmgt_decimal_unit`), so the numeral and unit `ItoaKMGT`
means to print read back as the magnitude rounded down to the unit
(`atoiKmgt_kmgtMagnitude`).
-/
import Gaia.Strings.StringPrintf

set_option autoImplicit false

namespace Gaia.Numbers

open Ascii

/-! ## `ItoaKMGT` -/

/-- The `if (i < 0)` block of `ItoaKMGT`: the sign, and `i` made non-negative. -/
def kmgtSign (i : BitVec 64) : String × BitVec 64 :=
  if i.toInt < 0 then
    -- We lose some accuracy if the caller passes LONG_LONG_MIN
    ("-", -(if i = BitVec.ofInt 64 (-2 ^ 63) then i + 1 else i))
  else ("", i)

/-- The unit chain of `ItoaKMGT` on a non-negative `i`: `val` and `suffix`. -/
def kmgtScale (i : BitVec 64) : BitVec 64 × String :=
  if (i.sshiftRight 40).toInt > 1 then (i.sshiftRight 40, "T")
  else if (i.sshiftRight 30).toInt > 1 then (i.sshiftRight 30, "G")
  else if (i.sshiftRight 20).toInt > 1 then (i.sshiftRight 20, "M")
  else if (i.sshiftRight 10).toInt > 1 then (i.sshiftRight 10, "K")
  else (i, "")

/-- `ItoaKMGT(i)`. -/
def itoaKMGT (dm : DataModel) (i : BitVec 64) : Option Bytes :=
  let (sign, i) := kmgtSign i
  let (val, suffix) := kmgtScale i
  stringPrintf (bytes ("%s%" ++ dm.prid64 ++ "d%s"))
    [.str (bytes sign), .int val.toInt, .str (bytes suffix)]

/-- `ItoaKMGT` with its two pairs taken apart. -/
theorem itoaKMGT_unfold (dm : DataModel) (i : BitVec 64) :
    itoaKMGT dm i = stringPrintf (bytes ("%s%" ++ dm.prid64 ++ "d%s"))
      [.str (bytes (kmgtSign i).1), .int (kmgtScale (kmgtSign i).2).1.toInt,
        .str (bytes (kmgtScale (kmgtSign i).2).2)] := by
  unfold itoaKMGT; rfl

/-- The format of `ItoaKMGT` under either data model: the stray `'d'` follows the number. -/
theorem stringPrintf_kmgt (dm : DataModel) (a : Bytes) (v : Int) (b : Bytes) :
    stringPrintf (bytes ("%s%" ++ dm.prid64 ++ "d%s")) [.str a, .int v, .str b]
      = some (a ++ printInt v ++ charByte 'd' :: b) := by
  have h : stringPrintf (bytes ("%s%" ++ dm.prid64 ++ "d%s")) [.str a, .int v, .str b]
      = some (padField 0 a ++ (padField 0 (printInt v) ++ charByte 'd' :: (padField 0 b ++ []))) := by
    cases dm <;> rfl
  simpa using h

/-! ## What `ItoaKMGT` prints -/

/-- The magnitude `ItoaKMGT` prints: `|i|`, `INT64_MIN` moved up by one first. -/
def kmgtMagnitude (i : BitVec 64) : Nat :=
  if i.toInt < 0 then (if i = BitVec.ofInt 64 (-2 ^ 63) then 2 ^ 63 - 1 else i.toInt.natAbs)
  else i.toNat

/-- The unit `ItoaKMGT` picks for a magnitude `n`: the largest of `2^40`, `2^30`, `2^20`,
`2^10` of which `n` holds more than one, as its shift and its letter. -/
def kmgtUnit (n : Nat) : Nat × String :=
  if n / 2 ^ 40 > 1 then (40, "T") else if n / 2 ^ 30 > 1 then (30, "G")
  else if n / 2 ^ 20 > 1 then (20, "M") else if n / 2 ^ 10 > 1 then (10, "K") else (0, "")

theorem sshiftRight_toInt {x : BitVec 64} (h : x.toNat < 2 ^ 63) (k : Nat) :
    (x.sshiftRight k).toInt = (x.toNat / 2 ^ k : Nat) := by
  have hk : x.toNat / 2 ^ k ≤ x.toNat := Nat.div_le_self _ _
  rw [BitVec.sshiftRight_eq_of_msb_false (BitVec.msb_eq_false_iff_two_mul_lt.2 (by omega)),
    BitVec.toInt_eq_toNat_cond, BitVec.toNat_ushiftRight, Nat.shiftRight_eq_div_pow,
    if_pos (by omega)]

theorem kmgtSign_fst (i : BitVec 64) : (kmgtSign i).1 = if i.toInt < 0 then "-" else "" := by
  rw [kmgtSign]; split_ifs <;> rfl

theorem kmgtSign_snd (i : BitVec 64) :
    (kmgtSign i).2.toNat = kmgtMagnitude i ∧ (kmgtSign i).2.toNat < 2 ^ 63 := by
  have hi := i.isLt
  have hmin : (BitVec.ofInt 64 (-2 ^ 63)).toNat = 2 ^ 63 := rfl
  rw [kmgtSign, kmgtMagnitude]
  by_cases hneg : i.toInt < 0
  · rw [if_pos hneg, if_pos hneg]
    have h63 : 2 ^ 63 ≤ i.toNat := by
      rw [BitVec.toInt_eq_toNat_cond] at hneg; split_ifs at hneg <;> omega
    by_cases hm : i = BitVec.ofInt 64 (-2 ^ 63)
    · subst hm; decide
    · have hne : i.toNat ≠ 2 ^ 63 := fun h => hm (BitVec.eq_of_toNat_eq (h.trans hmin.symm))
      rw [if_neg hm, if_neg hm]
      dsimp only
      rw [BitVec.toNat_neg, Nat.mod_eq_of_lt (by omega), BitVec.toInt_eq_toNat_cond,
        if_neg (by omega)]
      omega
  · rw [if_neg hneg, if_neg hneg]
    rw [BitVec.toInt_eq_toNat_cond] at hneg
    split_ifs at hneg <;> dsimp only <;> omega

theorem kmgtScale_eq {x : BitVec 64} (hx : x.toNat < 2 ^ 63) :
    kmgtScale x = (x.sshiftRight (kmgtUnit x.toNat).1, (kmgtUnit x.toNat).2) := by
  have hgt : ∀ k, (x.sshiftRight k).toInt > 1 ↔ x.toNat / 2 ^ k > 1 := fun k => by
    rw [sshiftRight_toInt hx]; omega
  simp only [kmgtScale, kmgtUnit, hgt]
  split_ifs <;> simp

/-- **What `ItoaKMGT` prints.** The sign, the magnitude in the unit `kmgtUnit` picks, a
`'d'`, and the unit's letter. -/
theorem itoaKMGT_eq (dm : DataModel) (i : BitVec 64) :
    itoaKMGT dm i = some (bytes (if i.toInt < 0 then "-" else "") ++
      decimal (kmgtMagnitude i / 2 ^ (kmgtUnit (kmgtMagnitude i)).1) ++
      charByte 'd' :: bytes (kmgtUnit (kmgtMagnitude i)).2) := by
  obtain ⟨hmag, hlt⟩ := kmgtSign_snd i
  rw [itoaKMGT_unfold, stringPrintf_kmgt, kmgtSign_fst, kmgtScale_eq hlt, sshiftRight_toInt hlt, hmag,
    printInt_natCast, List.append_assoc]

/-! ## `atoi_kmgt` -/

/-- What `LOG(FATAL)` logs for a unit byte `c` it does not know. -/
def invalidMnemonic (c : UInt8) : Bytes :=
  bytes "Invalid mnemonic: `" ++ [c] ++ bytes "'; should be one of `K', `M', `G', and `T'."

/-- `atoi_kmgt(s)`: `.error` is `LOG(FATAL)`. Nothing converted leaves `endptr` at `s`. -/
def atoiKmgt (s : Bytes) : Except Bytes Nat := do
  let (n, endptr) := (strtou64 s 10).getD (0, s)
  let c := endptr.headD 0
  let scale ←
    if c ≠ 0 then
      let c := asciiToupper c
      if c = charByte 'K' then pure (2 ^ 10)
      else if c = charByte 'M' then pure (2 ^ 20)
      else if c = charByte 'G' then pure (2 ^ 30)
      else if c = charByte 'T' then pure (2 ^ 40)
      else throw (invalidMnemonic c)
    else pure 1
  pure (n * scale % 2 ^ 64)

/-- The units `atoi_kmgt` knows, as shifts, and no unit at all. -/
def kmgtUnits : List (Nat × String) := [(0, ""), (10, "K"), (20, "M"), (30, "G"), (40, "T")]

theorem kmgtUnit_mem (n : Nat) : kmgtUnit n ∈ kmgtUnits := by
  simp only [kmgtUnit]; split_ifs <;> decide

/-- `atoi_kmgt` reads the decimal numeral `v` followed by a unit as `v`, saturated at
`UINT64_MAX` by `strtou64`, times the unit, modulo `2^64`. -/
theorem atoiKmgt_decimal_unit (v : Nat) (u : Nat × String) (hu : u ∈ kmgtUnits) :
    atoiKmgt (decimal v ++ bytes u.2) = .ok (min v (2 ^ 64 - 1) * 2 ^ u.1 % 2 ^ 64) := by
  have hmin : min v (2 ^ 64 - 1) = if v > 2 ^ 64 - 1 then 2 ^ 64 - 1 else v := by
    split_ifs <;> omega
  simp only [kmgtUnits, List.mem_cons, List.mem_singleton, List.not_mem_nil, or_false] at hu
  have hunit : ∀ c ∈ (bytes u.2).head?, 10 ≤ kAsciiToInt c := by
    rcases hu with rfl | rfl | rfl | rfl | rfl <;> decide
  have h := strtoSubject_decimal false 0 v (bytes u.2) hunit
  simp only [if_false, Bool.false_eq_true, List.nil_append, pad] at h
  simp only [atoiKmgt, strtou64, h, Option.map_some', Option.getD_some, hmin, if_false,
    Bool.false_eq_true]
  rcases hu with rfl | rfl | rfl | rfl | rfl <;> rfl

/-! ## The round trip -/

/-- **`atoi_kmgt` cannot read what `ItoaKMGT` prints.** For every `int64` and under both data
models, the byte after the numeral is the stray `'d'` and `atoi_kmgt` ends in `LOG(FATAL)`. -/
theorem atoiKmgt_itoaKMGT (dm : DataModel) (i : BitVec 64) :
    ∃ out, itoaKMGT dm i = some out ∧ atoiKmgt out = .error (invalidMnemonic (charByte 'D')) := by
  refine ⟨_, itoaKMGT_eq dm i, ?_⟩
  have hd : ∀ c ∈ (charByte 'd' :: bytes (kmgtUnit (kmgtMagnitude i)).2).head?,
      10 ≤ kAsciiToInt c := by
    simp only [List.head?_cons, Option.mem_def, Option.some.injEq, forall_eq']; decide
  have h := strtoSubject_decimal (decide (i.toInt < 0)) 0
    (kmgtMagnitude i / 2 ^ (kmgtUnit (kmgtMagnitude i)).1) _ hd
  rw [pad, List.append_nil] at h
  have hb : bytes (if i.toInt < 0 then "-" else "") =
      if decide (i.toInt < 0) then [charByte '-'] else [] := by
    by_cases hn : i.toInt < 0 <;>
      simp only [hn, decide_True, decide_False, if_true, if_false] <;> rfl
  have hD : charByte 'd' ≠ 0 ∧ asciiToupper (charByte 'd') = charByte 'D' ∧
      charByte 'D' ≠ charByte 'K' ∧ charByte 'D' ≠ charByte 'M' ∧ charByte 'D' ≠ charByte 'G' ∧
      charByte 'D' ≠ charByte 'T' := by decide
  rw [hb]
  simp only [atoiKmgt, strtou64, h, Option.map_some', Option.getD_some, List.headD_cons, hD,
    if_neg, ne_eq, not_false_eq_true, if_true]
  rfl

/-- **The round trip `ItoaKMGT` means.** The numeral and unit `ItoaKMGT` prints, without the
stray `'d'`, read back as the magnitude rounded down to a multiple of the unit. -/
theorem atoiKmgt_kmgtMagnitude (i : BitVec 64) :
    atoiKmgt (decimal (kmgtMagnitude i / 2 ^ (kmgtUnit (kmgtMagnitude i)).1) ++
      bytes (kmgtUnit (kmgtMagnitude i)).2)
      = .ok (kmgtMagnitude i / 2 ^ (kmgtUnit (kmgtMagnitude i)).1 *
        2 ^ (kmgtUnit (kmgtMagnitude i)).1) := by
  have hlt : kmgtMagnitude i < 2 ^ 63 := (kmgtSign_snd i).1 ▸ (kmgtSign_snd i).2
  have hle := Nat.div_mul_le_self (kmgtMagnitude i) (2 ^ (kmgtUnit (kmgtMagnitude i)).1)
  have hdiv := Nat.div_le_self (kmgtMagnitude i) (2 ^ (kmgtUnit (kmgtMagnitude i)).1)
  rw [atoiKmgt_decimal_unit _ _ (kmgtUnit_mem _), Nat.min_eq_left (by omega),
    Nat.mod_eq_of_lt (by omega)]

end Gaia.Numbers
