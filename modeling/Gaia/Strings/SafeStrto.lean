/-
`safe_strto32_base` and `safe_strto64_base` (`strings/numbers.cc:222`-`395`).

Both are `safe_int_internal<IntType>`: `safe_parse_sign_and_base` trims ASCII whitespace
from both ends, reads a sign and a base prefix and validates the base; then one of two
digit loops builds the value, `safe_parse_positive_int` upwards from `0` and
`safe_parse_negative_int` downwards, which is how the most negative value is reached
without overflow (the design comment at `strings/numbers.cc:283`).

Every signed `+`, `-` and `*` of the loops is kept as the C++ has it, and its overflow,
which is undefined behaviour, is made visible: `IntType.checked` is `none` when a result
leaves the type's range, so a run that returns `some` never overflowed. Division and
remainder by a base of at least two cannot overflow and are not checked. The
out-parameter `*value_p` is passed in and handed back, so "left unchanged on failure" is
something the code does, not something the encoding forces.

Under C++03 the direction in which `vmin / base` rounds is implementation-defined
(`strings/numbers.cc:337`), so the negative loop takes the implementation's division as a
`CDivision`, and what is proved about it holds for every one.

The main results are `positiveLoop_spec` and `negativeLoop_spec`, the two loops from any
in-range accumulator, and `safe_parse_int_exact`, which assembles them: each loop returns
`true` exactly on a numeral whose value fits, stores that value, leaves `*value_p` alone
otherwise, and never overflows. `safeIntInternal_eq` puts the sign and base parse in front:
what the two public functions return for every string, base and `*v`.
-/
import Gaia.Strings.Decimal
import Mathlib.Data.List.DropRight

set_option autoImplicit false

namespace Gaia.Numbers

open Ascii

/-! ## The two instantiations of `IntType` -/

/-- The `IntType` template argument: `safe_strto32_base` uses `int32`, `safe_strto64_base`
uses `int64`. -/
inductive IntType
  | int32
  | int64
  deriving DecidableEq, Repr

namespace IntType

/-- The width of the type. -/
def bits : IntType → Nat
  | int32 => 32
  | int64 => 64

/-- `std::numeric_limits<IntType>::max()`. -/
def max (T : IntType) : Int := 2 ^ (T.bits - 1) - 1

/-- `std::numeric_limits<IntType>::min()`. -/
def min (T : IntType) : Int := -2 ^ (T.bits - 1)

/-- The result of a signed operation in `IntType`: `none` when it overflows, which is
undefined behaviour. -/
def checked (T : IntType) (x : Int) : Option Int :=
  if T.min ≤ x ∧ x ≤ T.max then some x else none

variable (T : IntType)

theorem checked_of_mem {x : Int} (h1 : T.min ≤ x) (h2 : x ≤ T.max) : T.checked x = some x :=
  if_pos ⟨h1, h2⟩

theorem min_eq : T.min = -T.max - 1 := by
  simp only [min, max]; omega

theorem max_ge : 36 ≤ T.max := by
  cases T <;> decide

end IntType

/-! ## The division `vmin / base` -/

/-- Signed `/` and `%` as a C++03 implementation may define them for a positive divisor:
`(a / b) * b + a % b == a`, with the remainder strictly between `-b` and `b` and its sign
up to the implementation. -/
structure CDivision where
  /-- `a / b`. -/
  div : Int → Int → Int
  /-- `a % b`. -/
  mod : Int → Int → Int
  div_mul_add_mod : ∀ a b, 0 < b → div a b * b + mod a b = a
  mod_lt : ∀ a b, 0 < b → mod a b < b
  neg_lt_mod : ∀ a b, 0 < b → -b < mod a b

/-- C++11's division, which truncates toward zero. -/
def CDivision.truncate : CDivision where
  div := Int.tdiv
  mod := Int.tmod
  div_mul_add_mod a b _ := Int.tdiv_add_tmod' a b
  mod_lt a _ hb := Int.tmod_lt_of_pos a hb
  neg_lt_mod a b hb := by
    obtain ⟨n, rfl⟩ := Int.eq_ofNat_of_zero_le hb.le
    have hn : 0 < n := by omega
    rcases a with m | m
    · simp only [Int.ofNat_eq_coe, Int.tmod]; omega
    · have := Nat.mod_lt (m + 1) hn
      simp only [Int.tmod, Int.natAbs_ofNat, Int.ofNat_eq_coe, Nat.succ_eq_add_one]; omega

/-- Division that rounds toward negative infinity, which C++03 also allows. -/
def CDivision.floor : CDivision where
  div := Int.fdiv
  mod := Int.fmod
  div_mul_add_mod a b _ := by rw [Int.mul_comm]; exact Int.fdiv_add_fmod a b
  mod_lt a _ hb := Int.fmod_lt_of_pos a hb
  neg_lt_mod a _ hb := by have := Int.fmod_nonneg' a hb; omega

/-! ## The code -/

section Code

variable (T : IntType)

/-- The digit loop of `safe_parse_positive_int` (`strings/numbers.cc:317`) from the value
built so far: `none` is a signed overflow, `some none` is the loop's `return false`, and
`some (some v)` is running off the end of the range with `value = v`. -/
def positiveLoop (base vmaxOverBase : Int) : Int → Bytes → Option (Option Int)
  | value, [] => some (some value)
  | value, c :: rest =>
    let digit : Int := kAsciiToInt c
    if value > vmaxOverBase then some none else
    (T.checked (value * base)).bind fun value =>
    if digit ≥ base then some none else
    (T.checked (T.max - digit)).bind fun bound =>
    if value > bound then some none else
    (T.checked (value + digit)).bind fun value =>
    positiveLoop base vmaxOverBase value rest

/-- `safe_parse_positive_int` (`strings/numbers.cc:308`) on the digits `s`. `valueP` is
`*value_p` on entry; the result is the return value with `*value_p` on exit, or `none`
when a signed operation overflows. `vmax / base` has two nonnegative operands, so its
rounding is fixed. -/
def safeParsePositiveInt (s : Bytes) (base valueP : Int) : Option (Bool × Int) :=
  (positiveLoop T base (T.max / base) 0 s).map fun
    | none => (false, valueP)
    | some value => (true, value)

/-- The digit loop of `safe_parse_negative_int` (`strings/numbers.cc:344`), the mirror
image of `positiveLoop`. -/
def negativeLoop (base vminOverBase : Int) : Int → Bytes → Option (Option Int)
  | value, [] => some (some value)
  | value, c :: rest =>
    let digit : Int := kAsciiToInt c
    if value < vminOverBase then some none else
    (T.checked (value * base)).bind fun value =>
    if digit ≥ base then some none else
    (T.checked (T.min + digit)).bind fun bound =>
    if value < bound then some none else
    (T.checked (value - digit)).bind fun value =>
    negativeLoop base vminOverBase value rest

/-- `safe_parse_negative_int` (`strings/numbers.cc:331`) under the implementation's
division `cd`: `vmin / base`, moved up by one when the remainder came out positive. -/
def safeParseNegativeInt (cd : CDivision) (s : Bytes) (base valueP : Int) :
    Option (Bool × Int) :=
  let q := cd.div T.min base
  (if cd.mod T.min base > 0 then T.checked (q + 1) else some q).bind fun vminOverBase =>
  (negativeLoop T base vminOverBase 0 s).map fun
    | none => (false, valueP)
    | some value => (true, value)

end Code

/-- The base-dependent prefix of `safe_parse_sign_and_base` (`strings/numbers.cc:250`):
for base 0, `0x` selects 16, a leading `0` selects 8 and anything else 10; for base 16 a
`0x` is skipped; any other base outside `[2, 36]` is rejected. -/
def basePrefix (s : Bytes) (base : Int) : Option (Bytes × Int) :=
  if base = 0 then
    match s with
    | 48 :: x :: digits => if x = 120 ∨ x = 88 then some (digits, 16) else some (x :: digits, 8)
    | [48] => some ([], 8)
    | _ => some (s, 10)
  else if base = 16 then
    match s with
    | 48 :: x :: digits => if x = 120 ∨ x = 88 then some (digits, 16) else some (s, 16)
    | _ => some (s, 16)
  else if 2 ≤ base ∧ base ≤ 36 then some (s, base)
  else none

/-- `safe_parse_sign_and_base` (`strings/numbers.cc:224`): on success the digits left, the
base they are in, and whether a `-` was read; `none` is its `return false`. -/
def safeParseSignAndBase (s : Bytes) (base : Int) : Option (Bytes × Int × Bool) :=
  match (s.dropWhile isSpace).rdropWhile isSpace with
  | [] => none
  | c :: rest =>
    let negative := decide (c = 45)
    if (negative ∨ c = 43) ∧ rest = [] then none else
    (basePrefix (if negative ∨ c = 43 then rest else c :: rest) base).map fun
      | (digits, base) => (digits, base, negative)

/-- `safe_int_internal<IntType>` (`strings/numbers.cc:362`), built with C++11's
truncating division. -/
def safeIntInternal (T : IntType) (s : Bytes) (base valueP : Int) : Option (Bool × Int) :=
  match safeParseSignAndBase s base with
  | none => some (false, valueP)
  | some (digits, base, negative) =>
    if negative then safeParseNegativeInt T .truncate digits base valueP
    else safeParsePositiveInt T digits base valueP

/-- `safe_strto32_base(str, v, base)`: the return value and `*v` after the call. -/
def safeStrto32Base (str : Bytes) (v base : Int) : Option (Bool × Int) :=
  safeIntInternal .int32 str base v

/-- `safe_strto64_base(str, v, base)`: the return value and `*v` after the call. -/
def safeStrto64Base (str : Bytes) (v base : Int) : Option (Bool × Int) :=
  safeIntInternal .int64 str base v

/-! ## The digit loops

What the loops accumulate, written as the folds they are: `accumUp` is
`value = value * base + digit` per byte and `accumDown` is `value = value * base - digit`.
From `0` these are the numeral's value and its negation. -/

/-- The value the positive loop has built after the bytes `s`, from `acc`. -/
def accumUp (base acc : Int) (s : Bytes) : Int :=
  s.foldl (fun a c => a * base + kAsciiToInt c) acc

/-- The value the negative loop has built after the bytes `s`, from `acc`. -/
def accumDown (base acc : Int) (s : Bytes) : Int :=
  s.foldl (fun a c => a * base - kAsciiToInt c) acc

section Loops

variable {base : Int}

@[simp] theorem accumUp_nil (acc : Int) : accumUp base acc [] = acc := rfl

theorem accumUp_cons (acc : Int) (c : UInt8) (s : Bytes) :
    accumUp base acc (c :: s) = accumUp base (acc * base + kAsciiToInt c) s := rfl

@[simp] theorem accumDown_nil (acc : Int) : accumDown base acc [] = acc := rfl

theorem accumDown_cons (acc : Int) (c : UInt8) (s : Bytes) :
    accumDown base acc (c :: s) = accumDown base (acc * base - kAsciiToInt c) s := rfl

/-- Going up from a nonnegative value never goes below it. -/
theorem le_accumUp (hb : 1 ≤ base) (s : Bytes) {acc : Int} (h : 0 ≤ acc) :
    acc ≤ accumUp base acc s := by
  induction s generalizing acc with
  | nil => exact le_refl _
  | cons c s ih =>
    have hle : acc ≤ acc * base := le_mul_of_one_le_right h hb
    rw [accumUp_cons]
    exact le_trans (by omega) (ih (by omega : 0 ≤ acc * base + kAsciiToInt c))

/-- Going down from a nonpositive value never goes above it. -/
theorem accumDown_le (hb : 1 ≤ base) (s : Bytes) {acc : Int} (h : acc ≤ 0) :
    accumDown base acc s ≤ acc := by
  induction s generalizing acc with
  | nil => exact le_refl _
  | cons c s ih =>
    have hle : acc * base ≤ acc := by
      have := le_mul_of_one_le_right (show 0 ≤ -acc by omega) hb
      rw [Int.neg_mul] at this; omega
    rw [accumDown_cons]
    exact le_trans (ih (by omega : acc * base - kAsciiToInt c ≤ 0)) (by omega)

theorem accumDown_neg (s : Bytes) (acc : Int) : accumDown base (-acc) s = -accumUp base acc s := by
  induction s generalizing acc with
  | nil => rfl
  | cons c s ih =>
    rw [accumDown_cons, accumUp_cons, ← ih]; congr 1; rw [Int.neg_mul]; omega

theorem accumUp_zero (b : Nat) (s : Bytes) : accumUp b 0 s = numeral b s := by
  suffices ∀ acc : Nat, accumUp b acc s = (s.foldl (fun a c => a * b + kAsciiToInt c) acc : Nat)
    from this 0
  induction s with
  | nil => intro; rfl
  | cons c s ih => intro acc; rw [accumUp_cons, List.foldl_cons, ← ih]; push_cast; rfl

theorem accumDown_zero (b : Nat) (s : Bytes) : accumDown b 0 s = -numeral b s := by
  rw [← Int.neg_zero, accumDown_neg, accumUp_zero]

variable (T : IntType)

/-- **The positive loop**, from any value in `[0, vmax]`: it never overflows, and it runs
off the end exactly when every byte is a digit below `base` and the value it builds fits. -/
theorem positiveLoop_spec {b : Nat} (hb : 2 ≤ b ∧ b ≤ 36) (s : Bytes) {acc : Int}
    (h0 : 0 ≤ acc) (h1 : acc ≤ T.max) :
    positiveLoop T b (T.max / b) acc s =
      some (if (∀ c ∈ s, kAsciiToInt c < b) ∧ accumUp b acc s ≤ T.max
        then some (accumUp b acc s) else none) := by
  induction s generalizing acc with
  | nil => simp [positiveLoop, h1]
  | cons c s ih =>
    have hd := kAsciiToInt_le c
    have hm := T.max_ge
    have hmin := T.min_eq
    have hb0 : (0 : Int) < b := by omega
    have hnn : 0 ≤ acc * b := Int.mul_nonneg h0 hb0.le
    have hup := le_accumUp (show (1 : Int) ≤ b by omega) s
      (show 0 ≤ acc * b + kAsciiToInt c by omega)
    rw [accumUp_cons]
    simp only [positiveLoop, gt_iff_lt, ge_iff_le]
    rcases lt_or_le ((T.max) / b) acc with ha | ha
    · have := (Int.ediv_lt_iff_lt_mul hb0).1 ha
      rw [if_pos ha, if_neg fun h => absurd h.2 (by omega)]
    · have hmul := (Int.le_ediv_iff_mul_le hb0).1 ha
      rw [if_neg (by omega), T.checked_of_mem (by omega) hmul, Option.some_bind]
      rcases lt_or_le (kAsciiToInt c : Int) b with hdig | hdig
      · rw [if_neg (by omega), T.checked_of_mem (by omega) (by omega), Option.some_bind]
        rcases lt_or_le (T.max - kAsciiToInt c) (acc * b) with hov | hov
        · rw [if_pos hov, if_neg fun h => absurd h.2 (by omega)]
        · rw [if_neg (by omega), T.checked_of_mem (by omega) (by omega), Option.some_bind,
            ih (by omega) (by omega)]
          simp only [List.forall_mem_cons, show kAsciiToInt c < b by omega, true_and]
      · rw [if_pos hdig, if_neg fun h => absurd (h.1 c (List.mem_cons_self _ _)) (by omega)]

/-- The rounding `safe_parse_negative_int` wants from `vmin / base`, whatever the
division did: the least `q` with `vmin ≤ q * base`. -/
def IsCeilQuotient (base q : Int) : Prop := ∀ v : Int, q ≤ v ↔ T.min ≤ v * base

/-- **The negative loop**, from any value in `[vmin, 0]`, given the corrected quotient. -/
theorem negativeLoop_spec {b : Nat} (hb : 2 ≤ b ∧ b ≤ 36) {q : Int}
    (hq : IsCeilQuotient T b q) (s : Bytes) {acc : Int} (h0 : acc ≤ 0) (h1 : T.min ≤ acc) :
    negativeLoop T b q acc s =
      some (if (∀ c ∈ s, kAsciiToInt c < b) ∧ T.min ≤ accumDown b acc s
        then some (accumDown b acc s) else none) := by
  induction s generalizing acc with
  | nil => simp [negativeLoop, h1]
  | cons c s ih =>
    have hd := kAsciiToInt_le c
    have hm := T.max_ge
    have hmin := T.min_eq
    have hb0 : (0 : Int) < b := by omega
    have hnp : acc * b ≤ 0 := Int.mul_nonpos_of_nonpos_of_nonneg h0 hb0.le
    have hdn := accumDown_le (show (1 : Int) ≤ b by omega) s
      (show acc * b - kAsciiToInt c ≤ 0 by omega)
    rw [accumDown_cons]
    simp only [negativeLoop, gt_iff_lt, ge_iff_le]
    rcases lt_or_le acc q with ha | ha
    · have := mt (hq acc).2 (not_le.2 ha)
      rw [if_pos ha, if_neg fun h => absurd h.2 (by omega)]
    · have hmul := (hq acc).1 ha
      rw [if_neg (by omega), T.checked_of_mem hmul (by omega), Option.some_bind]
      rcases lt_or_le (kAsciiToInt c : Int) b with hdig | hdig
      · rw [if_neg (by omega), T.checked_of_mem (by omega) (by omega), Option.some_bind]
        rcases lt_or_le (acc * b) (T.min + kAsciiToInt c) with hov | hov
        · rw [if_pos hov, if_neg fun h => absurd h.2 (by omega)]
        · rw [if_neg (by omega), T.checked_of_mem (by omega) (by omega), Option.some_bind,
            ih (by omega) (by omega)]
          simp only [List.forall_mem_cons, show kAsciiToInt c < b by omega, true_and]
      · rw [if_pos hdig, if_neg fun h => absurd (h.1 c (List.mem_cons_self _ _)) (by omega)]

/-- Whatever the implementation's division does, the quotient `safe_parse_negative_int`
corrects is computed without overflow and is the ceiling of `vmin / base`: the hedge at
`strings/numbers.cc:340` works for both roundings C++03 allows. -/
theorem vminOverBase_spec (cd : CDivision) {b : Nat} (hb : 2 ≤ b ∧ b ≤ 36) :
    ∃ q, (if cd.mod T.min b > 0 then T.checked (cd.div T.min b + 1)
      else some (cd.div T.min b)) = some q ∧ IsCeilQuotient T b q := by
  have hdm := cd.div_mul_add_mod T.min b (by omega)
  have hlt := cd.mod_lt T.min b (by omega)
  have hgt := cd.neg_lt_mod T.min b (by omega)
  have hm := T.max_ge
  have hmin := T.min_eq
  have hb0 : (0 : Int) < b := by omega
  generalize cd.div T.min b = q0 at hdm ⊢
  generalize cd.mod T.min b = r at hdm hlt hgt ⊢
  have mono : ∀ v w : Int, v ≤ w → v * b ≤ w * b :=
    fun v w h => Int.mul_le_mul_of_nonneg_right h hb0.le
  rcases lt_or_le 0 r with hr | hr
  · have hq0 : q0 < 0 := by
      by_contra h; have := Int.mul_nonneg (not_lt.1 h) hb0.le; omega
    -- `q0 * b = vmin - r` and `b ≥ 2` put `q0 + 1` well inside the range
    have hlo : T.min ≤ q0 + 1 := by
      have : q0 * b ≤ q0 * 2 := mul_le_mul_of_nonpos_left (by omega) hq0.le
      omega
    refine ⟨q0 + 1, by rw [if_pos hr, T.checked_of_mem hlo (by omega)], fun v => ⟨?_, ?_⟩⟩
    · intro hv; have := mono _ _ hv; rw [Int.add_mul, Int.one_mul] at this; omega
    · intro hv; by_contra h; have := mono v q0 (by omega); omega
  · refine ⟨q0, by rw [if_neg (by omega)], fun v => ⟨?_, ?_⟩⟩
    · intro hv; have := mono _ _ hv; omega
    · intro hv; by_contra h
      have := mono v (q0 - 1) (by omega); rw [Int.sub_mul, Int.one_mul] at this; omega

/-- `safe_parse_positive_int`, exactly: `true` and the numeral's value when every byte is a
digit below the base and the value fits, else `false` with `*value_p` as it was. -/
theorem safeParsePositiveInt_eq (T : IntType) (b : Nat) (hb : 2 ≤ b ∧ b ≤ 36) (s : Bytes)
    (v : Int) :
    safeParsePositiveInt T s b v =
      some (if (∀ c ∈ s, kAsciiToInt c < b) ∧ (numeral b s : Int) ≤ T.max
        then (true, (numeral b s : Int)) else (false, v)) := by
  have hm := T.max_ge
  rw [safeParsePositiveInt, positiveLoop_spec T hb s le_rfl (by omega), accumUp_zero]
  split_ifs <;> rfl

/-- `safe_parse_negative_int`, exactly, under any division the implementation may use. -/
theorem safeParseNegativeInt_eq (cd : CDivision) (T : IntType) (b : Nat) (hb : 2 ≤ b ∧ b ≤ 36)
    (s : Bytes) (v : Int) :
    safeParseNegativeInt T cd s b v =
      some (if (∀ c ∈ s, kAsciiToInt c < b) ∧ T.min ≤ -(numeral b s : Int)
        then (true, -(numeral b s : Int)) else (false, v)) := by
  have hm := T.max_ge
  have hmin := T.min_eq
  obtain ⟨q, hq, hceil⟩ := vminOverBase_spec T cd hb
  rw [safeParseNegativeInt, hq, Option.some_bind,
    negativeLoop_spec T hb hceil s le_rfl (by omega), accumDown_zero]
  split_ifs <;> rfl

/-- **Both digit loops, exactly** (`strings/numbers.cc:307`-`357`). For either `IntType`,
any base in `[2, 36]`, any bytes and any division the implementation may use, neither
function overflows; each returns `true` exactly when every byte is a digit below the base
and the numeral's value `N` (for the negative loop, `-N`) fits the type, then stores that
value; when it returns `false`, `*value_p` is what it was. -/
theorem safe_parse_int_exact (cd : CDivision) (T : IntType) (b : Nat) (hb : 2 ≤ b ∧ b ≤ 36)
    (s : Bytes) (v : Int) :
    safeParsePositiveInt T s b v =
      some (if (∀ c ∈ s, kAsciiToInt c < b) ∧ (numeral b s : Int) ≤ T.max
        then (true, (numeral b s : Int)) else (false, v)) ∧
    safeParseNegativeInt T cd s b v =
      some (if (∀ c ∈ s, kAsciiToInt c < b) ∧ T.min ≤ -(numeral b s : Int)
        then (true, -(numeral b s : Int)) else (false, v)) :=
  ⟨safeParsePositiveInt_eq T b hb s v, safeParseNegativeInt_eq cd T b hb s v⟩

theorem safe_parse_int_exact_decimal :
    (2 ≤ 10 ∧ 10 ≤ 36) ∧
    (safeParsePositiveInt .int32 (bytes "2147483647") 10 0 =
      some (if (∀ c ∈ bytes "2147483647", kAsciiToInt c < 10) ∧
          (numeral 10 (bytes "2147483647") : Int) ≤ IntType.int32.max
        then (true, (numeral 10 (bytes "2147483647") : Int)) else (false, 0)) ∧
    safeParseNegativeInt .int32 .truncate (bytes "2147483647") 10 0 =
      some (if (∀ c ∈ bytes "2147483647", kAsciiToInt c < 10) ∧
          IntType.int32.min ≤ -(numeral 10 (bytes "2147483647") : Int)
        then (true, -(numeral 10 (bytes "2147483647") : Int)) else (false, 0))) :=
  ⟨by decide, safe_parse_int_exact .truncate .int32 10 ⟨by decide, by decide⟩ _ _⟩

end Loops

/-! ## The whole parse -/

/-- Every base `safe_parse_sign_and_base` hands on is in `[2, 36]`. -/
theorem basePrefix_base {s digits : Bytes} {base b : Int} (h : basePrefix s base = some (digits, b)) :
    2 ≤ b ∧ b ≤ 36 := by
  unfold basePrefix at h
  split_ifs at h <;> (repeat' split at h) <;>
    simp only [Option.some.injEq, Prod.mk.injEq, reduceCtorEq] at h <;> omega

theorem safeParseSignAndBase_base {s digits : Bytes} {base b : Int} {negative : Bool}
    (h : safeParseSignAndBase s base = some (digits, b, negative)) : 2 ≤ b ∧ b ≤ 36 := by
  unfold safeParseSignAndBase at h
  split at h
  · cases h
  · dsimp only at h
    split_ifs at h <;>
    · obtain ⟨⟨d, b'⟩, hp, he⟩ := Option.map_eq_some'.1 h
      cases he
      exact basePrefix_base hp

/-- **What `safe_strto32_base` and `safe_strto64_base` return**, for every string, base and
`*v`: `false` with `*v` unchanged when `safe_parse_sign_and_base` rejects the string; else
`true` and the signed value of the digits left, exactly when each is a digit of the base it
chose and the value fits the type. -/
theorem safeIntInternal_eq (T : IntType) (s : Bytes) (base v : Int) :
    safeIntInternal T s base v = some (match safeParseSignAndBase s base with
      | none => (false, v)
      | some (digits, b, negative) =>
        let value : Int :=
          if negative then -(numeral b.toNat digits : Int) else numeral b.toNat digits
        if (∀ c ∈ digits, kAsciiToInt c < b.toNat) ∧ T.min ≤ value ∧ value ≤ T.max
        then (true, value) else (false, v)) := by
  unfold safeIntInternal
  rcases h : safeParseSignAndBase s base with _ | ⟨digits, b, negative⟩
  · rfl
  obtain ⟨hb2, hb36⟩ := safeParseSignAndBase_base h
  obtain ⟨n, rfl⟩ := Int.eq_ofNat_of_zero_le (show 0 ≤ b by omega)
  have hn : 2 ≤ n ∧ n ≤ 36 := by omega
  have hmax := T.max_ge
  have hmin := T.min_eq
  have hN : (0 : Int) ≤ numeral n digits := Int.natCast_nonneg _
  dsimp only
  cases negative
  · rw [if_neg Bool.false_ne_true, safeParsePositiveInt_eq T n hn]
    simp only [Int.toNat_ofNat, Bool.false_eq_true, if_false,
      show T.min ≤ (numeral n digits : Int) ∧ (numeral n digits : Int) ≤ T.max ↔
        (numeral n digits : Int) ≤ T.max from ⟨And.right, fun h => ⟨by omega, h⟩⟩]
  · rw [if_pos rfl, safeParseNegativeInt_eq .truncate T n hn]
    simp only [Int.toNat_ofNat, if_true,
      show T.min ≤ -(numeral n digits : Int) ∧ -(numeral n digits : Int) ≤ T.max ↔
        T.min ≤ -(numeral n digits : Int) from ⟨And.left, fun h => ⟨h, by omega⟩⟩]

/-! ## A bare `0x`

`safe_parse_sign_and_base` checks that a digit follows the sign (`strings/numbers.cc:246`)
but not that one follows the `0x` prefix it skips, so the prefix alone is read as an
empty numeral, which the loops accept as `0`. -/

theorem safeStrto32Base_bare_hex_prefix : safeStrto32Base (bytes "0x") 7 16 = some (true, 0) := by
  decide

end Gaia.Numbers
