/-
`safe_strto32_base` and `safe_strto64_base` against the POSIX `strtol` subject-sequence
grammar with the whole input consumed, the grammar `safe_parse_sign_and_base`
(`strings/numbers.cc:222`) and the digit loops are there to accept.

`posixParse` is that grammar, written from POSIX and not from the code: after the white
space at both ends, an optional sign and a numeral of the base, where a numeral has one or
more digits. The code differs in one place. `safe_parse_sign_and_base` skips a `0x` prefix
without checking that a digit follows, and the digit loops read the empty rest as `0`. So a
bare `0x` or `0X`, signed or not, is accepted as `0` in base 16 and base 0
(`safeIntInternal_bareHexPrefix`), and on every other string the code returns what the
grammar says, with `*v` unchanged on rejection (`safeIntInternal_refines_posix`).

Since both widths return the verdict on one reading, `safe_strto32_base` is
`safe_strto64_base` with a range check after it (`safeStrto32Base_narrows`).
-/
import Gaia.Strings.SafeStrto

set_option autoImplicit false

namespace Gaia.Numbers

open Ascii

/-! ## The POSIX grammar -/

/-- One or more digits, each below `b`, and their value in base `b`. -/
def digitRun (b : Nat) (ds : Bytes) : Option Nat :=
  if ds ≠ [] ∧ ∀ c ∈ ds, kAsciiToInt c < b then some (numeral b ds) else none

/-- A numeral of `base` in the POSIX grammar, and its value. In base 0: `0x`
or `0X` and one or more hex digits, or `0` and zero or more octal digits, or else a nonzero
decimal digit and decimal digits. In base 16: an optional `0x` or `0X`, then one or more hex
digits. In any other base in `[2, 36]`: one or more digits below the base. -/
def posixNumeral (base : Int) (t : Bytes) : Option Nat :=
  if base = 0 then
    match t with
    | 48 :: x :: ds => if x = 120 ∨ x = 88 then digitRun 16 ds else digitRun 8 (x :: ds)
    | [48] => some 0
    | _ => digitRun 10 t
  else if base = 16 then
    match t with
    | 48 :: x :: ds => if x = 120 ∨ x = 88 then digitRun 16 ds else digitRun 16 t
    | _ => digitRun 16 t
  else if 2 ≤ base ∧ base ≤ 36 then digitRun base.toNat t
  else none

/-- The signed value a string stands for in the POSIX grammar: after the white space at
both ends is trimmed, an optional `+` or `-` and a numeral of the base. -/
def posixParse (s : Bytes) (base : Int) : Option Int :=
  match (s.dropWhile isSpace).rdropWhile isSpace with
  | [] => none
  | c :: rest =>
    if c = 45 then (posixNumeral base rest).map fun n : Nat => -(n : Int)
    else if c = 43 then (posixNumeral base rest).map fun n : Nat => (n : Int)
    else (posixNumeral base (c :: rest)).map fun n : Nat => (n : Int)

/-- The outcome for a reading of the string: `true` and the value when there is one and it
fits the type, else `false` with `*v` unchanged. -/
def verdict (T : IntType) (v : Int) : Option Int → Bool × Int
  | some x => if T.min ≤ x ∧ x ≤ T.max then (true, x) else (false, v)
  | none => (false, v)

/-- What the functions return and leave in `*v` when they follow the POSIX grammar. -/
def posixResult (T : IntType) (s : Bytes) (base v : Int) : Bool × Int :=
  verdict T v (posixParse s base)

/-- In base 0 or 16, at most a sign and a `0x` or `0X` with no digit after it, white space
at the ends apart. -/
def BareHexPrefix (s : Bytes) (base : Int) : Prop :=
  (base = 0 ∨ base = 16) ∧ ∃ sign x, (sign = [] ∨ sign = [43] ∨ sign = [45]) ∧
    (x = 120 ∨ x = 88) ∧ (s.dropWhile isSpace).rdropWhile isSpace = sign ++ [48, x]

/-! ## The code against the grammar -/

/-- What the digit loops make of the digits left and their base: the value, when every digit
is below the base. -/
def digitsValue : Bytes × Int → Option Nat
  | (digits, b) =>
    if ∀ c ∈ digits, kAsciiToInt c < b.toNat then some (numeral b.toNat digits) else none

/-- What the code makes of the string after the sign: the prefix parse, then the digit loops. -/
def prefixValue (base : Int) (u : Bytes) : Option Nat :=
  (basePrefix u base).bind digitsValue

/-- The code's reading of the whole string: `safe_parse_sign_and_base`, then the digit loops,
then the sign. -/
def codeParse (s : Bytes) (base : Int) : Option Int :=
  (safeParseSignAndBase s base).bind fun (digits, b, negative) =>
    (digitsValue (digits, b)).map fun n : Nat => if negative then -(n : Int) else n

theorem digitsValue_eq_digitRun {ds : Bytes} (h : ds ≠ []) (b : Int) :
    digitsValue (ds, b) = digitRun b.toNat ds := by
  simp only [digitsValue, digitRun, ne_eq, h, not_false_eq_true, true_and]

theorem posixNumeral_nil (base : Int) : posixNumeral base [] = none := by
  unfold posixNumeral; split_ifs <;> rfl

/-- **The prefix parse against the grammar.** On a nonempty string after the sign, the code's
reading is the grammar's, except for a bare `0x` or `0X` in base 0 or 16, which the code
reads as `0` and the grammar rejects. -/
theorem prefixValue_eq (base : Int) {u : Bytes} (hu : u ≠ []) :
    prefixValue base u = posixNumeral base u ∨
      ((base = 0 ∨ base = 16) ∧ (∃ x, (x = 120 ∨ x = 88) ∧ u = [48, x]) ∧
        prefixValue base u = some 0 ∧ posixNumeral base u = none) := by
  have run : ∀ {ds : Bytes}, ds ≠ [] → ∀ b : Int,
      (some (ds, b)).bind digitsValue = digitRun b.toNat ds :=
    fun h b => digitsValue_eq_digitRun h b
  unfold prefixValue basePrefix
  by_cases h0 : base = 0
  · rw [if_pos h0]
    split
    · rename_i x ds
      simp only [posixNumeral, if_pos h0]
      split_ifs with hx
      · rcases ds with _ | ⟨d, ds⟩
        · exact .inr ⟨.inl h0, ⟨x, hx, rfl⟩, rfl, rfl⟩
        · exact .inl (run (List.cons_ne_nil _ _) 16)
      · exact .inl (run (List.cons_ne_nil _ _) 8)
    · simp only [posixNumeral, if_pos h0]
      exact .inl rfl
    · rename_i hx hzero
      unfold posixNumeral
      rw [if_pos h0]
      split
      · exact (hx _ _ rfl).elim
      · exact (hzero rfl).elim
      · exact .inl (run hu 10)
  by_cases h16 : base = 16
  · rw [if_neg h0, if_pos h16]
    split
    · rename_i x ds
      simp only [posixNumeral, if_neg h0, if_pos h16]
      split_ifs with hx
      · rcases ds with _ | ⟨d, ds⟩
        · exact .inr ⟨.inr h16, ⟨x, hx, rfl⟩, rfl, rfl⟩
        · exact .inl (run (List.cons_ne_nil _ _) 16)
      · exact .inl (run hu 16)
    · rename_i hx
      unfold posixNumeral
      rw [if_neg h0, if_pos h16]
      split
      · exact (hx _ _ rfl).elim
      · exact .inl (run hu 16)
  · simp only [posixNumeral, if_neg h0, if_neg h16]
    split_ifs
    · exact .inl (run hu base)
    · exact .inl rfl

/-- **The code's reading, after the sign.** -/
theorem codeParse_eq (s : Bytes) (base : Int) :
    codeParse s base = match (s.dropWhile isSpace).rdropWhile isSpace with
      | [] => none
      | c :: rest =>
        if (c = 45 ∨ c = 43) ∧ rest = [] then none else
        (prefixValue base (if c = 45 ∨ c = 43 then rest else c :: rest)).map fun n : Nat =>
          if c = 45 then -(n : Int) else n := by
  unfold codeParse safeParseSignAndBase prefixValue
  rcases (s.dropWhile isSpace).rdropWhile isSpace with _ | ⟨c, rest⟩
  · rfl
  · simp only [decide_eq_true_eq]
    split_ifs <;> first | rfl | cases basePrefix _ base <;>
      simp only [Option.map_none', Option.map_some', Option.none_bind, Option.some_bind,
        decide_eq_true_eq, *, if_true, if_false]

/-- **The outcome is the verdict on the code's reading.** -/
theorem safeIntInternal_eq_verdict (T : IntType) (s : Bytes) (base v : Int) :
    safeIntInternal T s base v = some (verdict T v (codeParse s base)) := by
  rw [safeIntInternal_eq]
  unfold codeParse
  rcases safeParseSignAndBase s base with _ | ⟨digits, b, negative⟩
  · rfl
  · by_cases hd : ∀ c ∈ digits, kAsciiToInt c < b.toNat
    · simp only [Option.some_bind, digitsValue, if_pos hd, and_iff_right hd, Option.map_some',
        verdict]
    · simp only [Option.some_bind, digitsValue, if_neg hd, iff_false_intro hd, false_and,
        if_false, Option.map_none', verdict]

/-- **The code's reading against the grammar's.** They agree on every string but a bare
`0x` or `0X` in base 0 or 16, which the code reads as `0` and the grammar rejects. -/
theorem codeParse_posixParse (s : Bytes) (base : Int) :
    codeParse s base = posixParse s base ∨
      (BareHexPrefix s base ∧ codeParse s base = some 0 ∧ posixParse s base = none) := by
  have signed : ∀ {u : Bytes}, u ≠ [] → ∀ sign : Bytes, (sign = [] ∨ sign = [43] ∨ sign = [45]) →
      (s.dropWhile isSpace).rdropWhile isSpace = sign ++ u → ∀ f : Nat → Int, f 0 = 0 →
      (prefixValue base u).map f = (posixNumeral base u).map f ∨ (BareHexPrefix s base ∧
        (prefixValue base u).map f = some 0 ∧ (posixNumeral base u).map f = none) := by
    intro u hu sign hs ht f hf
    rcases prefixValue_eq base hu with h | ⟨hb, ⟨x, hx, rfl⟩, hp, hc⟩
    · exact .inl (by rw [h])
    · exact .inr ⟨⟨hb, sign, x, hs, hx, ht⟩, by rw [hp, Option.map_some', hf],
        by rw [hc, Option.map_none']⟩
  rw [codeParse_eq]
  unfold posixParse
  generalize ht : (s.dropWhile isSpace).rdropWhile isSpace = t at signed
  rcases t with _ | ⟨c, rest⟩
  · exact .inl rfl
  simp only []
  by_cases hm : c = 45
  · by_cases hr : rest = []
    · subst hr
      simp only [hm, true_or, and_self, if_true, posixNumeral_nil, Option.map_none']
    · simp only [hm, true_or, true_and, hr, if_false, if_true]
      exact signed hr [45] (by simp) (by rw [hm]; rfl) _ neg_zero
  by_cases hp : c = 43
  · by_cases hr : rest = []
    · subst hr
      simp only [hp, or_true, and_self, if_true, if_neg hm, posixNumeral_nil, Option.map_none']
      exact .inl rfl
    · simp only [hm, hp, or_true, true_and, hr, if_false, if_true]
      exact signed hr [43] (by simp) (by rw [hp]; rfl) _ rfl
  · simp only [hm, hp, or_self, false_and, if_false]
    exact signed (List.cons_ne_nil c rest) [] (by simp) rfl _ rfl

theorem verdict_zero (T : IntType) (v : Int) : verdict T v (some 0) = (true, 0) := by
  have hmax := T.max_ge
  have hmin := T.min_eq
  rw [verdict, if_pos (by omega)]

/-! ## The refinement -/

/-- **`safe_strto32_base` and `safe_strto64_base` follow the POSIX grammar, but on a bare
prefix.** For every type, string, base and `*v`, the outcome is the grammar's, or the string
is a bare `0x` or `0X` in base 0 or 16, where the grammar says `false` and the code returns
`true` with `*v = 0`. -/
theorem safeIntInternal_refines_posix (T : IntType) (s : Bytes) (base v : Int) :
    safeIntInternal T s base v = some (posixResult T s base v) ∨
      (BareHexPrefix s base ∧ posixResult T s base v = (false, v) ∧
        safeIntInternal T s base v = some (true, 0)) := by
  rw [safeIntInternal_eq_verdict, posixResult]
  rcases codeParse_posixParse s base with h | ⟨hb, hc, hn⟩
  · exact .inl (by rw [h])
  · exact .inr ⟨hb, by rw [hn]; rfl, by rw [hc, verdict_zero]⟩

example : safeIntInternal .int32 (bytes " -0x1F ") 0 7 = some (posixResult .int32 (bytes " -0x1F ") 0 7) := by
  decide

/-- **Every bare prefix is accepted as `0`.** Whatever the sign, the case of the `x`, the
white space around and the type, the grammar rejects the string and the code returns
`true` with `*v = 0`. -/
theorem safeIntInternal_bareHexPrefix (T : IntType) (s : Bytes) (base v : Int)
    (h : BareHexPrefix s base) :
    posixResult T s base v = (false, v) ∧ safeIntInternal T s base v = some (true, 0) := by
  obtain ⟨hb, sign, x, hs, hx, ht⟩ := h
  have hp : codeParse s base = some 0 ∧ posixParse s base = none := by
    rw [codeParse_eq, posixParse, ht]
    rcases hs with rfl | rfl | rfl <;> rcases hb with rfl | rfl <;> rcases hx with rfl | rfl <;>
      exact ⟨rfl, rfl⟩
  rw [safeIntInternal_eq_verdict, posixResult, hp.1, hp.2, verdict_zero]
  exact ⟨rfl, rfl⟩

/-- A minus sign and `0x` between spaces, in base 16. -/
theorem safeIntInternal_minus_bare_prefix :
    BareHexPrefix (bytes " -0x ") 16 ∧ posixResult .int64 (bytes " -0x ") 16 9 = (false, 9) ∧
      safeIntInternal .int64 (bytes " -0x ") 16 9 = some (true, 0) :=
  have h : BareHexPrefix (bytes " -0x ") 16 := ⟨.inr rfl, [45], 120, by simp, by simp, by decide⟩
  ⟨h, safeIntInternal_bareHexPrefix .int64 (bytes " -0x ") 16 9 h⟩

/-! ## The two widths -/

/-- **`safe_strto32_base` is `safe_strto64_base` and a range check.** For every string, base
and `*v`: `safe_strto32_base` returns `true` with `x` exactly when `safe_strto64_base` does
and `x` is an `int32`, and otherwise `false` with `*v` unchanged. The narrower digit loops,
with their own overflow thresholds, decide nothing the wider ones do not. -/
theorem safeStrto32Base_narrows (s : Bytes) (v base : Int) :
    ∃ r, safeStrto64Base s v base = some r ∧
      safeStrto32Base s v base =
        some (if r.1 = true ∧ -2 ^ 31 ≤ r.2 ∧ r.2 ≤ 2 ^ 31 - 1 then r else (false, v)) := by
  refine ⟨_, safeIntInternal_eq_verdict .int64 s base v, ?_⟩
  rw [safeStrto32Base, safeIntInternal_eq_verdict]
  have h32 : IntType.int32.min = -2 ^ 31 ∧ IntType.int32.max = 2 ^ 31 - 1 := ⟨rfl, rfl⟩
  have h64 : IntType.int64.min = -2 ^ 63 ∧ IntType.int64.max = 2 ^ 63 - 1 := ⟨rfl, rfl⟩
  rcases codeParse s base with _ | x
  · rfl
  · simp only [verdict, h32.1, h32.2, h64.1, h64.2]
    by_cases hx : -2 ^ 31 ≤ x ∧ x ≤ 2 ^ 31 - 1
    · have hx' : -2 ^ 63 ≤ x ∧ x ≤ 2 ^ 63 - 1 := by omega
      simp only [if_pos hx, if_pos hx', true_and]
    · by_cases hx' : -2 ^ 63 ≤ x ∧ x ≤ 2 ^ 63 - 1
      · simp only [if_neg hx, if_pos hx', true_and]
      · simp only [if_neg hx, if_neg hx', Bool.false_eq_true, false_and, if_false]

/-- `"3000000000"` fits `int64` and not `int32`. -/
theorem safeStrto32Base_narrows_3e9 :
    safeStrto64Base (bytes "3000000000") 7 10 = some (true, 3000000000) ∧
      safeStrto32Base (bytes "3000000000") 7 10 = some (false, 7) := by
  obtain ⟨r, h64, h32⟩ := safeStrto32Base_narrows (bytes "3000000000") 7 10
  have h : safeStrto64Base (bytes "3000000000") 7 10 = some (true, 3000000000) := by decide
  rw [h, Option.some.injEq] at h64
  subst h64
  exact ⟨h, h32.trans (by decide)⟩

end Gaia.Numbers
