/-
`SimpleItoaWithCommas` (`strings/numbers.cc:791`-`902`): an integer in decimal with a
comma before every group of three digits, for `int32`, `uint32`, `int64` and `uint64`.

Each overload writes right to left into a local array, `*--p = c` a byte: the ones digit,
then a loop unrolled three digits at a time that writes a comma in front of every third
digit, then `'-'` for a negative number, and returns the bytes from `p` to the end. The
signed overloads negate in the unsigned type, which is how the most negative value is
handled without overflow.

The array is `Buf`: the pointer `p` as an offset, with what lies from `p` to the end; a
store at `p = local` would leave the array, and `Buf.push` is `none` there. The four
overloads are `itoaWithCommas` at their own array size, sign and unsigned value.

The grouping the comment promises is `withCommas`. The loop's invariant is
`commaLoop_spec`: entered with the ones digit `d` of a group written, it finishes
`withCommas (10 * m + d)` in front of what was written, given room. The overloads'
arrays have that room for every value of their type (`withCommas_length_le`), so none of
them stores out of bounds (`simpleItoaWithCommas_spec`). With its commas taken out,
`withCommas n` is `decimal n` (`withCommas_filter`), so each overload writes the sign and the
decimal digits of its value and nothing else but commas (`simpleItoaWithCommas_digits`).
-/
import Gaia.Strings.Decimal
import Mathlib.Data.BitVec

set_option autoImplicit false

namespace Gaia.Numbers

open Ascii

/-! ## The code -/

/-- `char local[N]` and `p`, as an offset into it, with the bytes written from `p` to the
end. -/
structure Buf (N : Nat) where
  p : Nat
  out : Bytes
  filled : p + out.length = N

/-- `char *p = local + sizeof(local);` -/
def Buf.init (N : Nat) : Buf N := ⟨N, [], rfl⟩

/-- `*--p = c;`, which leaves the array when `p` is already at `local`. -/
def Buf.push {N : Nat} (b : Buf N) (c : UInt8) : Option (Buf N) :=
  if h : b.p = 0 then none
  else some ⟨b.p - 1, c :: b.out, by have := b.filled; simp only [List.length_cons]; omega⟩

/-- The `while (n)` loop, one call an iteration: two digits with a check after each, then
a comma and the next digit, `n /= 10` after every digit. -/
def commaLoop {N : Nat} (n : Nat) (b : Buf N) : Option (Buf N) :=
  if n = 0 then some b
  else (b.push (digitChar (n % 10))).bind fun b =>
    let n₁ := n / 10
    if n₁ = 0 then some b
    else (b.push (digitChar (n₁ % 10))).bind fun b =>
      let n₂ := n₁ / 10
      if n₂ = 0 then some b
      else (b.push (charByte ',')).bind fun b =>
        (b.push (digitChar (n₂ % 10))).bind fun b => commaLoop (n₂ / 10) b
termination_by n
decreasing_by all_goals omega

/-- The body the four overloads share, from the first `*--p` to the `return`, in a
`char local[N]`, on the unsigned value `n`. -/
def itoaWithCommas (N : Nat) (negative : Bool) (n : Nat) : Option Bytes := do
  -- this case deals with the number "0"
  let b ← (Buf.init N).push (digitChar (n % 10))
  let b ← commaLoop (n / 10) b
  let b ← if negative then b.push (charByte '-') else pure b
  pure b.out

/-- `SimpleItoaWithCommas(int32 i)`: `uint32 n = i; if (i < 0) n = 0 - n;` -/
def simpleItoaWithCommasInt32 (i : BitVec 32) : Option Bytes :=
  itoaWithCommas 14 (i.toInt < 0) (if i.toInt < 0 then 0 - i else i).toNat

/-- `SimpleItoaWithCommas(uint32 i)`. -/
def simpleItoaWithCommasUInt32 (i : BitVec 32) : Option Bytes :=
  itoaWithCommas 13 false i.toNat

/-- `SimpleItoaWithCommas(int64 i)`: `uint64 n = i; if (i < 0) n = 0 - n;` -/
def simpleItoaWithCommasInt64 (i : BitVec 64) : Option Bytes :=
  itoaWithCommas 26 (i.toInt < 0) (if i.toInt < 0 then 0 - i else i).toNat

/-- `SimpleItoaWithCommas(uint64 i)`. -/
def simpleItoaWithCommasUInt64 (i : BitVec 64) : Option Bytes :=
  itoaWithCommas 26 false i.toNat

/-! ## The grouping -/

/-- The decimal digits of `n` with a `','` in front of every group of three counted from
the right: the groups are padded to three digits, all but the first. -/
def withCommas (n : Nat) : Bytes :=
  if n < 1000 then decimal n else withCommas (n / 1000) ++ charByte ',' :: pad 3 (n % 1000)
termination_by n
decreasing_by omega

theorem withCommas_of_lt {n : Nat} (h : n < 1000) : withCommas n = decimal n := by
  rw [withCommas, if_pos h]

theorem withCommas_of_ge {n : Nat} (h : 1000 ≤ n) :
    withCommas n = withCommas (n / 1000) ++ charByte ',' :: pad 3 (n % 1000) := by
  rw [withCommas, if_neg (by omega)]

/-- A number of at most `d` digits takes at most `d + (d - 1) / 3` bytes with its commas. -/
theorem withCommas_length_le {d n : Nat} (hd : 0 < d) (h : n < 10 ^ d) :
    (withCommas n).length ≤ d + (d - 1) / 3 := by
  induction n using Nat.strong_induction_on generalizing d with
  | _ n ih =>
    rcases Nat.lt_or_ge n 1000 with hn | hn
    · rw [withCommas_of_lt hn]
      exact le_trans (decimal_length_le hd h) (Nat.le_add_right _ _)
    · have hd3 : 3 < d := by
        by_contra hc
        have : 10 ^ d ≤ 10 ^ 3 := Nat.pow_le_pow_right (by norm_num) (by omega)
        omega
      have hq : n / 1000 < 10 ^ (d - 3) := by
        rw [Nat.div_lt_iff_lt_mul (by norm_num), show 1000 = 10 ^ 3 by rfl, ← Nat.pow_add,
          Nat.sub_add_cancel (by omega)]
        exact h
      have := ih (n / 1000) (by omega) (by omega) hq
      rw [withCommas_of_ge hn, List.length_append, List.length_cons, pad_length]
      omega

/-- Without its commas, `withCommas n` is `decimal n`. -/
theorem withCommas_filter (n : Nat) : (withCommas n).filter (· != charByte ',') = decimal n := by
  induction n using Nat.strong_induction_on with
  | _ n ih =>
    have hdig : ∀ l : Bytes, (∀ c ∈ l, isDigit c = true) → l.filter (· != charByte ',') = l :=
      fun l hl => List.filter_eq_self.2 fun c hc => by
        have := hl c hc
        rw [bne_iff_ne, ne_eq]
        rintro rfl
        revert this; decide
    rcases Nat.lt_or_ge n 1000 with hn | hn
    · rw [withCommas_of_lt hn, hdig _ fun c => isDigit_of_mem_decimal]
    · rw [withCommas_of_ge hn, List.filter_append, ih _ (by omega),
        List.filter_cons_of_neg (by decide), hdig _ fun c => isDigit_of_mem_pad,
        decimal_eq_append_pad 3 hn, ← pad_mod 3 n]; rfl

/-! ## The loop writes the grouping -/

/-- A store with room left succeeds. -/
theorem Buf.push_of_lt {N : Nat} (b : Buf N) (c : UInt8) (h : b.out.length < N) :
    ∃ b', b.push c = some b' ∧ b'.out = c :: b.out :=
  ⟨_, dif_neg (by have := b.filled; omega), rfl⟩

/-- `pad 3` spelled out. -/
theorem pad_three (y : Nat) :
    pad 3 y = [digitChar (y / 100 % 10), digitChar (y / 10 % 10), digitChar (y % 10)] := by
  simp only [pad, List.nil_append, List.singleton_append, Nat.div_div_eq_div_mul]; rfl

theorem withCommas_ne_nil (n : Nat) : withCommas n ≠ [] := by
  rw [withCommas]; split <;> simp [decimal_ne_nil]

theorem withCommas_two {x : Nat} (h1 : 10 ≤ x) (h2 : x < 100) :
    withCommas x = [digitChar (x / 10), digitChar (x % 10)] := by
  rw [withCommas_of_lt (by omega), decimal_eq_pad (k := 1) (by omega) (by omega)]
  simp only [pad, List.nil_append, List.singleton_append, Nat.mod_eq_of_lt (show x / 10 < 10 by omega)]

theorem withCommas_three {x : Nat} (h1 : 100 ≤ x) (h2 : x < 1000) :
    withCommas x = [digitChar (x / 100), digitChar (x / 10 % 10), digitChar (x % 10)] := by
  rw [withCommas_of_lt h2, decimal_eq_pad (k := 2) (by omega) (by omega), pad_three,
    Nat.mod_eq_of_lt (show x / 100 < 10 by omega)]

/-- **The loop.** Entered with `n = m` and the ones digit `d` of a group just written in front
of `tail`, the loop writes the rest of `withCommas (10 * m + d)` in front of it, given room
for it in the array. -/
theorem commaLoop_spec {N : Nat} (m : Nat) : ∀ (d : Nat) (tail : Bytes) (b : Buf N), d < 10 →
    b.out = digitChar d :: tail → (withCommas (10 * m + d)).length + tail.length ≤ N →
    (commaLoop m b).map Buf.out = some (withCommas (10 * m + d) ++ tail) := by
  induction m using Nat.strong_induction_on with
  | _ m ih =>
  intro d tail b hd hb hN
  rw [commaLoop]
  by_cases h0 : m = 0
  · subst h0
    rw [if_pos rfl, Option.map_some', hb, Nat.mul_zero, Nat.zero_add, withCommas_of_lt (by omega),
      decimal_of_lt hd]; rfl
  rw [if_neg h0]
  by_cases h1 : m / 10 = 0
  · rw [withCommas_two (by omega) (by omega)] at hN ⊢
    obtain ⟨b₁, hp₁, hb₁⟩ := b.push_of_lt (digitChar (m % 10)) (by simp [hb] at hN ⊢; omega)
    rw [hp₁, Option.some_bind]
    dsimp only
    rw [if_pos h1, Option.map_some', hb₁, hb, show (10 * m + d) / 10 = m % 10 by omega,
      show (10 * m + d) % 10 = d by omega]; rfl
  have h3 : 3 + tail.length ≤ N := by
    by_cases h2 : m / 10 / 10 = 0
    · rw [withCommas_three (by omega) (by omega)] at hN; simp at hN; omega
    · rw [withCommas_of_ge (by omega)] at hN
      have := List.length_pos.2 (withCommas_ne_nil ((10 * m + d) / 1000))
      simp at hN; omega
  obtain ⟨b₁, hp₁, hb₁⟩ := b.push_of_lt (digitChar (m % 10)) (by simp [hb]; omega)
  rw [hp₁, Option.some_bind]
  dsimp only
  rw [if_neg h1]
  obtain ⟨b₂, hp₂, hb₂⟩ := b₁.push_of_lt (digitChar (m / 10 % 10)) (by simp [hb₁, hb]; omega)
  rw [hp₂, Option.some_bind]
  by_cases h2 : m / 10 / 10 = 0
  · rw [withCommas_three (by omega) (by omega)]
    rw [if_pos h2, Option.map_some', hb₂, hb₁, hb, show (10 * m + d) / 100 = m / 10 % 10 by omega,
      show (10 * m + d) / 10 % 10 = m % 10 by omega, show (10 * m + d) % 10 = d by omega]; rfl
  · rw [if_neg h2]
    have hW := List.length_pos.2 (withCommas_ne_nil ((10 * m + d) / 1000))
    rw [withCommas_of_ge (by omega), pad_three] at hN ⊢
    simp only [List.length_append, List.length_cons, List.length_nil] at hN
    obtain ⟨b₃, hp₃, hb₃⟩ := b₂.push_of_lt (charByte ',') (by simp [hb₂, hb₁, hb]; omega)
    obtain ⟨b₄, hp₄, hb₄⟩ :=
      b₃.push_of_lt (digitChar (m / 10 / 10 % 10)) (by simp [hb₃, hb₂, hb₁, hb]; omega)
    rw [hp₃, Option.some_bind, hp₄, Option.some_bind]
    have e : 10 * (m / 10 / 10 / 10) + m / 10 / 10 % 10 = (10 * m + d) / 1000 := by omega
    rw [ih _ (by omega) _ (charByte ',' :: digitChar (m / 10 % 10) :: digitChar (m % 10) ::
        digitChar d :: tail) b₄ (Nat.mod_lt _ (by norm_num)) (by rw [hb₄, hb₃, hb₂, hb₁, hb])
        (by rw [e]; simp; omega), e,
      show (10 * m + d) % 1000 / 100 % 10 = m / 10 % 10 by omega,
      show (10 * m + d) % 1000 / 10 % 10 = m % 10 by omega,
      show (10 * m + d) % 1000 % 10 = d by omega]
    simp
/-- The shared body writes the sign and `withCommas n`, given room for them. -/
theorem itoaWithCommas_eq {N : Nat} (negative : Bool) (n : Nat)
    (h : (if negative then 1 else 0) + (withCommas n).length ≤ N) :
    itoaWithCommas N negative n
      = some ((if negative then [charByte '-'] else []) ++ withCommas n) := by
  have hW := List.length_pos.2 (withCommas_ne_nil n)
  have hN : (withCommas n).length ≤ N := by split at h <;> omega
  obtain ⟨b₁, hp₁, hb₁⟩ := (Buf.init N).push_of_lt (digitChar (n % 10)) (by simp [Buf.init]; omega)
  have hl := commaLoop_spec (n / 10) (n % 10) [] b₁ (Nat.mod_lt _ (by norm_num)) hb₁
    (by rw [Nat.div_add_mod]; simpa using hN)
  rw [Nat.div_add_mod, List.append_nil] at hl
  obtain ⟨b₂, hb₂, hout⟩ := Option.map_eq_some'.1 hl
  simp only [itoaWithCommas, hp₁, hb₂, Option.bind_eq_bind, Option.some_bind]
  cases negative
  · simp [hout]
  · obtain ⟨b₃, hp₃, hb₃⟩ := b₂.push_of_lt (charByte '-') (by rw [hout]; simp at h; omega)
    simp [hp₃, hb₃, hout]

/-! ## The four overloads -/

/-- `uint32 n = i; if (i < 0) n = 0 - n;` is `|i|`, the most negative value included. -/
theorem toNat_negate_eq_natAbs {w : Nat} (i : BitVec w) :
    (if i.toInt < 0 then 0 - i else i).toNat = i.toInt.natAbs := by
  have hi := i.isLt
  have h0 : (0 : BitVec w).toNat = 0 := by simp
  rw [BitVec.toInt_eq_toNat_cond]
  split_ifs with h1 h2 h2
  · omega
  · rfl
  · rw [BitVec.toNat_sub, h0, Nat.add_zero, Nat.mod_eq_of_lt (by omega)]
    omega
  · omega

/-- An overload whose array holds the sign and `d` digits with their commas writes its
value in full. -/
theorem itoaWithCommas_of_lt (N d : Nat) (negative : Bool) {n : Nat} (hd : 0 < d)
    (hn : n < 10 ^ d) (hN : (if negative then 1 else 0) + (d + (d - 1) / 3) ≤ N) :
    itoaWithCommas N negative n
        = some ((if negative then [charByte '-'] else []) ++ withCommas n) ∧
      ((if negative then [charByte '-'] else []) ++ withCommas n).length ≤ N := by
  have hl := withCommas_length_le hd hn
  have hroom : (if negative then 1 else 0) + (withCommas n).length ≤ N := by omega
  refine ⟨itoaWithCommas_eq negative n hroom, ?_⟩
  cases negative <;> simp at hroom ⊢ <;> omega

theorem simpleItoaWithCommasInt32_eq (i : BitVec 32) :
    simpleItoaWithCommasInt32 i
        = some ((if i.toInt < 0 then [charByte '-'] else []) ++ withCommas i.toInt.natAbs) ∧
      ((if i.toInt < 0 then [charByte '-'] else []) ++ withCommas i.toInt.natAbs).length ≤ 14 := by
  have hi := i.isLt
  have hn : i.toInt.natAbs < 10 ^ 10 := by rw [BitVec.toInt_eq_toNat_cond]; split_ifs <;> omega
  rw [simpleItoaWithCommasInt32, toNat_negate_eq_natAbs]
  simpa using itoaWithCommas_of_lt 14 10 (i.toInt < 0) (by norm_num) hn (by split_ifs <;> norm_num)

theorem simpleItoaWithCommasUInt32_eq (i : BitVec 32) :
    simpleItoaWithCommasUInt32 i = some (withCommas i.toNat) ∧
      (withCommas i.toNat).length ≤ 13 := by
  simpa using itoaWithCommas_of_lt 13 10 false (by norm_num) (i.isLt.trans (by norm_num))
    (by norm_num)

theorem simpleItoaWithCommasInt64_eq (i : BitVec 64) :
    simpleItoaWithCommasInt64 i
        = some ((if i.toInt < 0 then [charByte '-'] else []) ++ withCommas i.toInt.natAbs) ∧
      ((if i.toInt < 0 then [charByte '-'] else []) ++ withCommas i.toInt.natAbs).length ≤ 26 := by
  have hi := i.isLt
  have hn : i.toInt.natAbs < 10 ^ 19 := by rw [BitVec.toInt_eq_toNat_cond]; split_ifs <;> omega
  rw [simpleItoaWithCommasInt64, toNat_negate_eq_natAbs]
  simpa using itoaWithCommas_of_lt 26 19 (i.toInt < 0) (by norm_num) hn (by split_ifs <;> norm_num)

theorem simpleItoaWithCommasUInt64_eq (i : BitVec 64) :
    simpleItoaWithCommasUInt64 i = some (withCommas i.toNat) ∧
      (withCommas i.toNat).length ≤ 26 := by
  simpa using itoaWithCommas_of_lt 26 20 false (by norm_num) (i.isLt.trans (by norm_num))
    (by norm_num)

/-- **`SimpleItoaWithCommas`, all four overloads.** For every value `i` of its type, `INT32_MIN`
and `INT64_MIN` included, the result is `'-'` for a negative `i`, then the digits of `|i|`
with a comma before every group of three from the right; it is at most 14, 13, 26 and 26
bytes long, and the writer never stores before the start of its array. -/
theorem simpleItoaWithCommas_spec :
    (∀ i : BitVec 32, simpleItoaWithCommasInt32 i
        = some ((if i.toInt < 0 then [charByte '-'] else []) ++ withCommas i.toInt.natAbs) ∧
      ((if i.toInt < 0 then [charByte '-'] else []) ++ withCommas i.toInt.natAbs).length ≤ 14) ∧
    (∀ i : BitVec 32, simpleItoaWithCommasUInt32 i = some (withCommas i.toNat) ∧
      (withCommas i.toNat).length ≤ 13) ∧
    (∀ i : BitVec 64, simpleItoaWithCommasInt64 i
        = some ((if i.toInt < 0 then [charByte '-'] else []) ++ withCommas i.toInt.natAbs) ∧
      ((if i.toInt < 0 then [charByte '-'] else []) ++ withCommas i.toInt.natAbs).length ≤ 26) ∧
    (∀ i : BitVec 64, simpleItoaWithCommasUInt64 i = some (withCommas i.toNat) ∧
      (withCommas i.toNat).length ≤ 26) :=
  ⟨simpleItoaWithCommasInt32_eq, simpleItoaWithCommasUInt32_eq, simpleItoaWithCommasInt64_eq,
    simpleItoaWithCommasUInt64_eq⟩

/-! ## Without the commas -/

/-- The sign stays when the commas are taken out. -/
theorem filter_sign_withCommas (negative : Prop) [Decidable negative] (n : Nat) :
    ((if negative then [charByte '-'] else []) ++ withCommas n).filter (· != charByte ',') =
      (if negative then [charByte '-'] else []) ++ decimal n := by
  rw [List.filter_append, withCommas_filter]
  by_cases h : negative <;> simp only [h, if_true, if_false] <;> rfl

/-- **The commas are all `SimpleItoaWithCommas` adds.** For every value `i` of each of the
four types, the result with its commas taken out is `'-'` for a negative `i`, then the
decimal digits of `|i|`: the digits every other writer of `strings/numbers.cc` writes. -/
theorem simpleItoaWithCommas_digits :
    (∀ i : BitVec 32, (simpleItoaWithCommasInt32 i).map (List.filter (· != charByte ',')) =
      some ((if i.toInt < 0 then [charByte '-'] else []) ++ decimal i.toInt.natAbs)) ∧
    (∀ i : BitVec 32, (simpleItoaWithCommasUInt32 i).map (List.filter (· != charByte ',')) =
      some (decimal i.toNat)) ∧
    (∀ i : BitVec 64, (simpleItoaWithCommasInt64 i).map (List.filter (· != charByte ',')) =
      some ((if i.toInt < 0 then [charByte '-'] else []) ++ decimal i.toInt.natAbs)) ∧
    (∀ i : BitVec 64, (simpleItoaWithCommasUInt64 i).map (List.filter (· != charByte ',')) =
      some (decimal i.toNat)) := by
  refine ⟨fun i => ?_, fun i => ?_, fun i => ?_, fun i => ?_⟩
  · rw [(simpleItoaWithCommasInt32_eq i).1, Option.map_some', filter_sign_withCommas]
  · rw [(simpleItoaWithCommasUInt32_eq i).1, Option.map_some', withCommas_filter]
  · rw [(simpleItoaWithCommasInt64_eq i).1, Option.map_some', filter_sign_withCommas]
  · rw [(simpleItoaWithCommasUInt64_eq i).1, Option.map_some', withCommas_filter]

end Gaia.Numbers
