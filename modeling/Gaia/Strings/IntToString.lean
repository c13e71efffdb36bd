/-
`IntToString`, `Int64ToString` and `UInt64ToString` (`strings/numbers.cc:940`-`978`), and what
`safe_strto32_base` and `safe_strto64_base` make of what they print.

Each is one `StringPrintf` call: with the caller's format, or with `"%7d"`, `"%7" PRId64`
and `"%7" PRIu64`. A field width of 7 puts spaces in front of a short number
(`intToString_eq`, `int64ToString_eq`, `uInt64ToString_eq`).

`safe_parse_sign_and_base` trims white space and `%d` writes no leading zero but for `0`
itself, so the parsers read every value back, in base 10 and in base 0, where a leading
zero would mean octal (`safeStrto32Base_intToString`, `safeStrto64Base_int64ToString`).
`UInt64ToString`'s output is read back by `safe_strto64_base` exactly when the value fits an
`int64` (`safeStrto64Base_uInt64ToString`).
-/
import Gaia.Strings.StringPrintf

set_option autoImplicit false

namespace Gaia.Numbers

open Ascii

/-! ## The code -/

/-- `IntToString(i, format)`. -/
def intToStringFormat (i : BitVec 32) (format : Bytes) : Option Bytes :=
  stringPrintf format [.int i.toInt]

/-- `Int64ToString(i64, format)`. -/
def int64ToStringFormat (i64 : BitVec 64) (format : Bytes) : Option Bytes :=
  stringPrintf format [.int i64.toInt]

/-- `UInt64ToString(ui64, format)`. -/
def uInt64ToStringFormat (ui64 : BitVec 64) (format : Bytes) : Option Bytes :=
  stringPrintf format [.int ui64.toNat]

/-- `IntToString(i)`: `StringPrintf("%7d", i)`. -/
def intToString (i : BitVec 32) : Option Bytes := stringPrintf (bytes "%7d") [.int i.toInt]

/-- `Int64ToString(i64)`: `StringPrintf("%7" PRId64, i64)`. -/
def int64ToString (dm : DataModel) (i64 : BitVec 64) : Option Bytes :=
  stringPrintf (bytes ("%7" ++ dm.prid64)) [.int i64.toInt]

/-- `UInt64ToString(ui64)`: `StringPrintf("%7" PRIu64, ui64)`. -/
def uInt64ToString (dm : DataModel) (ui64 : BitVec 64) : Option Bytes :=
  stringPrintf (bytes ("%7" ++ dm.priu64)) [.int ui64.toNat]

/-! ## What they print -/

theorem intToString_eq (i : BitVec 32) : intToString i = some (padField 7 (printInt i.toInt)) := by
  have h : intToString i = some (padField 7 (printInt i.toInt) ++ []) := rfl
  rwa [List.append_nil] at h

theorem int64ToString_eq (dm : DataModel) (i : BitVec 64) :
    int64ToString dm i = some (padField 7 (printInt i.toInt)) := by
  have h : int64ToString dm i = some (padField 7 (printInt i.toInt) ++ []) := by cases dm <;> rfl
  rwa [List.append_nil] at h

theorem uInt64ToString_eq (dm : DataModel) (u : BitVec 64) :
    uInt64ToString dm u = some (padField 7 (printInt u.toNat)) := by
  have h : uInt64ToString dm u = some (padField 7 (decimal u.toNat) ++ []) := by cases dm <;> rfl
  rwa [List.append_nil, ← printInt_natCast] at h

/-! ## Reading them back -/

/-- A machine word of the type's width, read signed, is in the type's range. -/
theorem IntType.toInt_mem (T : IntType) (x : BitVec T.bits) :
    T.min ≤ x.toInt ∧ x.toInt ≤ T.max := by
  have hx := x.isLt
  rw [BitVec.toInt_eq_toNat_cond]
  cases T <;> simp only [IntType.min, IntType.max, IntType.bits] at * <;> split_ifs <;> omega

/-- In base 10, and in base 0 for the numerals `decimal` writes, the prefix is no prefix:
`decimal 0` is an octal `0`, every other numeral a decimal one. -/
theorem basePrefix_decimal (n : Nat) {base : Int} (hb : base = 0 ∨ base = 10) :
    ∃ digits b, basePrefix (decimal n) base = some (digits, b) ∧
      (∀ c ∈ digits, kAsciiToInt c < b.toNat) ∧ numeral b.toNat digits = n := by
  have hdig : ∀ c ∈ decimal n, kAsciiToInt c < 10 := fun c hc =>
    (kAsciiToInt_lt_ten_iff c).2 (isDigit_of_mem_decimal hc)
  rcases hb with rfl | rfl
  · by_cases h0 : n = 0
    · subst h0
      exact ⟨[], 8, by rw [decimal_of_lt (by norm_num)]; rfl, by simp, rfl⟩
    · refine ⟨decimal n, 10, ?_, hdig, numeral_decimal n⟩
      obtain ⟨d, ds, hd⟩ := List.exists_cons_of_ne_nil (decimal_ne_nil n)
      have hd0 : d ≠ 48 := fun h => h0 (eq_zero_of_decimal_head (by rw [hd, h]; rfl))
      rw [hd]
      simp [basePrefix, hd0]
  · exact ⟨decimal n, 10, rfl, hdig, numeral_decimal n⟩

theorem printInt_not_space (x : Int) : ∀ c ∈ printInt x, isSpace c = false := by
  intro c hc
  simp only [printInt, List.mem_append] at hc
  rcases hc with hc | hc
  · split_ifs at hc
    · rw [List.mem_singleton.1 hc]; rfl
    · cases hc
  · have := isDigit_of_mem_decimal hc
    simp only [isDigit, Bool.and_eq_true, decide_eq_true_eq] at this
    simp only [isSpace, Bool.or_eq_false_iff, beq_eq_false_iff_ne, Bool.and_eq_false_imp,
      decide_eq_true_eq, decide_eq_false_iff_not]
    omega

/-- `safe_parse_sign_and_base` on a padded `%d`: the spaces go, the sign is read, and the
digits left are those of `|x|` in the base chosen. -/
theorem safeParseSignAndBase_padField_printInt (k : Nat) (x : Int) {base : Int}
    (hb : base = 0 ∨ base = 10) :
    ∃ digits b, safeParseSignAndBase (padField k (printInt x)) base =
        some (digits, b, decide (x < 0)) ∧
      (∀ c ∈ digits, kAsciiToInt c < b.toNat) ∧ numeral b.toNat digits = x.natAbs := by
  have hns := printInt_not_space x
  have hne : printInt x ≠ [] := by simp [printInt, decimal_ne_nil]
  have htrim :
      ((padField k (printInt x)).dropWhile isSpace).rdropWhile isSpace = printInt x := by
    rw [padField, List.dropWhile_append_of_pos
      (fun c hc => by rw [List.eq_of_mem_replicate hc]; rfl)]
    obtain ⟨c, cs, hc⟩ := List.exists_cons_of_ne_nil hne
    rw [hc, List.dropWhile_cons_of_neg (by simp [hns c (hc ▸ List.mem_cons_self c cs)]), ← hc,
      List.rdropWhile_eq_self_iff]
    intro h
    simp [hns _ (List.getLast_mem h)]
  obtain ⟨digits, b, hp, hd, hv⟩ := basePrefix_decimal x.natAbs hb
  refine ⟨digits, b, ?_, hd, hv⟩
  rw [safeParseSignAndBase, htrim]
  by_cases hx : x < 0
  · have hpi : printInt x = 45 :: decimal x.natAbs := by simp only [printInt, if_pos hx]; rfl
    rw [hpi]
    simp [decimal_ne_nil, hp, hx]
  · obtain ⟨d, ds, hd⟩ := List.exists_cons_of_ne_nil (decimal_ne_nil x.natAbs)
    have hdd := isDigit_of_mem_decimal (hd ▸ List.mem_cons_self d ds)
    simp only [isDigit, Bool.and_eq_true, decide_eq_true_eq] at hdd
    have h45 : d ≠ 45 := fun h => absurd hdd (by rw [h]; decide)
    have h43 : d ≠ 43 := fun h => absurd hdd (by rw [h]; decide)
    have hpi : printInt x = d :: ds := by simp only [printInt, if_neg hx, List.nil_append, hd]
    rw [hpi]
    simp [h45, h43, ← hd, hp, hx]

/-- **A padded `%d` is read back.** `safe_strto32_base` and `safe_strto64_base`, in base 10
or base 0, read `x` printed by `%d` in any field width: `true` and `x` when it fits the
type, else `false` with `*v` unchanged. -/
theorem safeIntInternal_padField_printInt (T : IntType) (k : Nat) (x v : Int) {base : Int}
    (hb : base = 0 ∨ base = 10) :
    safeIntInternal T (padField k (printInt x)) base v =
      some (if T.min ≤ x ∧ x ≤ T.max then (true, x) else (false, v)) := by
  obtain ⟨digits, b, hp, hd, hv⟩ := safeParseSignAndBase_padField_printInt k x hb
  have hval : (if decide (x < 0) = true then -(x.natAbs : Int) else x.natAbs) = x := by
    split_ifs with h <;> simp at h <;> omega
  rw [safeIntInternal_eq, hp]
  dsimp only
  rw [hv, hval]
  by_cases hr : T.min ≤ x ∧ x ≤ T.max
  · rw [if_pos ⟨hd, hr⟩, if_pos hr]
  · rw [if_neg fun h => hr h.2, if_neg hr]

/-- **`safe_strto32_base` reads back what `IntToString` prints**, in base 10 and in base 0,
for every `int` and whatever `*v` held. -/
theorem safeStrto32Base_intToString (i : BitVec 32) (v : Int) :
    ∃ out, intToString i = some out ∧
      safeStrto32Base out v 10 = some (true, i.toInt) ∧
      safeStrto32Base out v 0 = some (true, i.toInt) := by
  have hr := IntType.toInt_mem .int32 i
  refine ⟨_, intToString_eq i, ?_, ?_⟩ <;>
    rw [safeStrto32Base, safeIntInternal_padField_printInt _ _ _ _ (by omega), if_pos hr]

/-- **`safe_strto64_base` reads back what `Int64ToString` prints**, in base 10 and in
base 0, for every `int64` under both data models. -/
theorem safeStrto64Base_int64ToString (dm : DataModel) (i : BitVec 64) (v : Int) :
    ∃ out, int64ToString dm i = some out ∧
      safeStrto64Base out v 10 = some (true, i.toInt) ∧
      safeStrto64Base out v 0 = some (true, i.toInt) := by
  have hr := IntType.toInt_mem .int64 i
  refine ⟨_, int64ToString_eq dm i, ?_, ?_⟩ <;>
    rw [safeStrto64Base, safeIntInternal_padField_printInt _ _ _ _ (by omega), if_pos hr]

/-- **`safe_strto64_base` reads `UInt64ToString`'s output back exactly when it fits an
`int64`**; above `INT64_MAX` it returns `false` and leaves `*v` alone. -/
theorem safeStrto64Base_uInt64ToString (dm : DataModel) (u : BitVec 64) (v : Int) :
    ∃ out, uInt64ToString dm u = some out ∧
      safeStrto64Base out v 10 =
        some (if u.toNat < 2 ^ 63 then (true, (u.toNat : Int)) else (false, v)) := by
  refine ⟨_, uInt64ToString_eq dm u, ?_⟩
  rw [safeStrto64Base, safeIntInternal_padField_printInt _ _ _ _ (by omega)]
  have hmin : IntType.int64.min = -2 ^ 63 := rfl
  have hmax : IntType.int64.max = 2 ^ 63 - 1 := rfl
  by_cases hu : u.toNat < 2 ^ 63
  · rw [if_pos (by omega), if_pos hu]
  · rw [if_neg (by omega), if_neg hu]

end Gaia.Numbers
