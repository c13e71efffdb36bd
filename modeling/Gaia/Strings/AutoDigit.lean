/-
`AutoDigitStrCmp` (`strings/numbers.cc:599`): what the loop compares.

The loop keeps one index into each string. Where both strings are at a digit it skips the
two runs' leading zeroes, compares the remaining run lengths, then the runs digit by
digit, and in strict mode the zero counts; anywhere else it compares one byte of each as
`char`s. The doc comment (`strings/numbers.cc:576`) calls this comparing digit runs
"numerically instead of lexicographically", at arbitrary precision.

`autoDigitStrCmp` is that loop, one recursive call per iteration. `tokenize` cuts a
string into maximal digit runs and single other bytes, `tokenCmp` compares two tokens the
way the doc comment says, and the main result, `autoDigitStrCmp_eq_lexCmp`, is that the
loop is the lexicographic comparison of the two token sequences with a proper prefix
first. The arithmetic behind it is `compareRun_eq`: for digit runs without leading zeroes,
"shorter is smaller, else the first differing digit" is the order of their values.
-/
import Gaia.Strings.Decimal
import Mathlib.Order.Basic

set_option autoImplicit false

namespace Gaia.Numbers

open Ascii

/-! ## The code -/

/-- `'0'`. -/
abbrev zeroChar : UInt8 := 48

/-- The `for` loop at `strings/numbers.cc:630`: two runs of the same length, compared digit
by digit as `char`s, `0` when they agree. -/
def compareDigits : Bytes → Bytes → Int
  | x :: xs, y :: ys =>
    if toChar x < toChar y then -1 else if toChar x > toChar y then 1 else compareDigits xs ys
  | _, _ => 0

/-- After a run's leading zeroes and digits are skipped, what is left lies past the run. -/
theorem dropWhile_isDigit_dropWhile_zero (l : Bytes) :
    (l.dropWhile (· == zeroChar)).dropWhile isDigit = l.dropWhile isDigit := by
  induction l with
  | nil => rfl
  | cons c l ih =>
    by_cases hc : c = zeroChar
    · subst hc
      rw [List.dropWhile_cons_of_pos (by decide), ih,
        List.dropWhile_cons_of_pos (show isDigit zeroChar = true by decide)]
    · rw [List.dropWhile_cons_of_neg (by simpa using hc)]

theorem length_rest_lt {x : UInt8} (xs : Bytes) (hx : isDigit x = true) :
    (((x :: xs).dropWhile (· == zeroChar)).dropWhile isDigit).length < xs.length + 1 := by
  rw [dropWhile_isDigit_dropWhile_zero, List.dropWhile_cons_of_pos hx]
  exact Nat.lt_succ_of_le ((List.dropWhile_suffix _).length_le)

/-- `AutoDigitStrCmp(a, alen, b, blen, strict)`. Each call is one iteration of the `while`
loop, on what is left of `a` and `b` from `aindex` and `bindex`. -/
def autoDigitStrCmp (a b : Bytes) (strict : Bool) : Int :=
  match a, b with
  | x :: xs, y :: ys =>
    if isDigit x && isDigit y then
      -- Skip leading zeroes, but remember how many we found
      let a' := (x :: xs).dropWhile (· == zeroChar)
      let b' := (y :: ys).dropWhile (· == zeroChar)
      let azeroes := ((x :: xs).takeWhile (· == zeroChar)).length
      let bzeroes := ((y :: ys).takeWhile (· == zeroChar)).length
      -- Count digit lengths
      let arun := a'.takeWhile isDigit
      let brun := b'.takeWhile isDigit
      if arun.length < brun.length then -1
      else if arun.length > brun.length then 1
      else if compareDigits arun brun ≠ 0 then compareDigits arun brun
      else if strict && azeroes ≠ bzeroes then (if azeroes > bzeroes then -1 else 1)
      else autoDigitStrCmp (a'.dropWhile isDigit) (b'.dropWhile isDigit) strict
    else if toChar x < toChar y then -1
    else if toChar x > toChar y then 1
    else autoDigitStrCmp xs ys strict
  | _ :: _, [] => 1
  | [], _ :: _ => -1
  | [], [] => 0
termination_by a.length
decreasing_by
  · exact length_rest_lt xs (by simp_all)
  · simp

/-- `AutoDigitLessThan`. -/
def autoDigitLessThan (a b : Bytes) : Bool := autoDigitStrCmp a b false < 0

/-- `StrictAutoDigitLessThan`. -/
def strictAutoDigitLessThan (a b : Bytes) : Bool := autoDigitStrCmp a b true < 0

/-! ## Tokens -/

/-- A token of a string: a maximal run of digits, or one byte that is not a digit. The
fields say so, so every token is one that `tokenize` can produce. -/
inductive Token
  | number (run : Bytes) (nonempty : run ≠ []) (digits : ∀ c ∈ run, isDigit c = true)
  | byte (c : UInt8) (nondigit : isDigit c = false)

/-- The string a token stands for. -/
def Token.bytes : Token → Bytes
  | .number run _ _ => run
  | .byte c _ => [c]

/-- The leading zeroes of a digit run. -/
def leadingZeros (run : Bytes) : Nat := (run.takeWhile (· == zeroChar)).length

/-- Cut a string into maximal digit runs and single other bytes. -/
def tokenize : Bytes → List Token
  | [] => []
  | c :: cs =>
    if h : isDigit c = true then
      .number (c :: cs.takeWhile isDigit) (List.cons_ne_nil _ _)
        (by
          intro d hd
          rcases List.mem_cons.1 hd with rfl | hd
          · exact h
          · exact List.mem_takeWhile_imp hd) :: tokenize (cs.dropWhile isDigit)
    else .byte c (by simpa using h) :: tokenize cs
termination_by l => l.length
decreasing_by
  · exact Nat.lt_succ_of_le ((List.dropWhile_suffix _).length_le)
  · simp

/-- Two tokens compared as the doc comment says: bytes as `char`s, a digit run against a
byte by its first digit, and two digit runs by their values at arbitrary precision, the
one with more leading zeroes first when the values are equal and `strict` is set. -/
def tokenCmp (strict : Bool) : Token → Token → Ordering
  | .byte x _, .byte y _ => compare (toChar x) (toChar y)
  | .number r _ _, .byte y _ => compare (toChar (r.headD 0)) (toChar y)
  | .byte x _, .number r _ _ => compare (toChar x) (toChar (r.headD 0))
  | .number r _ _, .number r' _ _ =>
    (compare (numeral 10 r) (numeral 10 r')).then
      (if strict then compare (leadingZeros r') (leadingZeros r) else .eq)

/-- Lexicographic comparison with a proper prefix first. -/
def lexCmp {α : Type} (cmp : α → α → Ordering) : List α → List α → Ordering
  | [], [] => .eq
  | [], _ :: _ => .lt
  | _ :: _, [] => .gt
  | x :: xs, y :: ys => (cmp x y).then (lexCmp cmp xs ys)

/-- An `Ordering` as the `int` the C comparators return. -/
def ofOrdering : Ordering → Int
  | .lt => -1
  | .eq => 0
  | .gt => 1

@[simp] theorem ofOrdering_lt : ofOrdering .lt = -1 := rfl
@[simp] theorem ofOrdering_eq : ofOrdering .eq = 0 := rfl
@[simp] theorem ofOrdering_gt : ofOrdering .gt = 1 := rfl

/-! ## Digit runs as numbers -/

/-- `compare` on `Nat` and `Int` is `compareOfLessAndEq`; these unfold it once. -/
theorem compare_nat_eq (a b : Nat) :
    compare a b = if a < b then .lt else if a = b then .eq else .gt := rfl

theorem compare_int_eq (a b : Int) :
    compare a b = if a < b then .lt else if a = b then .eq else .gt := rfl

/-- Two base-`P` two-digit numbers compare by their high digits, then their low ones. -/
theorem compare_mul_add {P a b x y : Nat} (hx : x < P) (hy : y < P) :
    compare (a * P + x) (b * P + y) = (compare a b).then (compare x y) := by
  rcases Nat.lt_trichotomy a b with h | rfl | h
  · have : (a + 1) * P ≤ b * P := Nat.mul_le_mul_right _ h
    rw [Nat.compare_eq_lt.2 h, Nat.compare_eq_lt.2 (by rw [Nat.succ_mul] at this; omega)]; rfl
  · rw [compare_nat_eq a a, if_neg (Nat.lt_irrefl a), if_pos rfl, compare_nat_eq, compare_nat_eq]
    split_ifs <;> first | rfl | omega
  · have : (b + 1) * P ≤ a * P := Nat.mul_le_mul_right _ h
    rw [Nat.compare_eq_gt.2 h, Nat.compare_eq_gt.2 (by rw [Nat.succ_mul] at this; omega)]; rfl

/-- A run of digits whose first digit, if it has one, is not `'0'`. -/
def NoLeadingZero (r : Bytes) : Prop := (∀ c ∈ r, isDigit c = true) ∧ r.head? ≠ some zeroChar

theorem numeral_lt_of_digits {r : Bytes} (h : ∀ c ∈ r, isDigit c = true) :
    numeral 10 r < 10 ^ r.length :=
  numeral_lt fun c hc => (kAsciiToInt_lt_ten_iff c).2 (h c hc)

/-- A run with a nonzero first digit is worth at least `10 ^ (length - 1)`. -/
theorem pow_le_numeral {x : UInt8} {r : Bytes} (h : NoLeadingZero (x :: r)) :
    10 ^ r.length ≤ numeral 10 (x :: r) := by
  have hx := h.1 x (List.mem_cons_self _ _)
  have hx0 : x.toNat ≠ 48 := fun e => h.2 (by simp [UInt8.toNat.inj (b := zeroChar) e])
  have hd : 1 ≤ kAsciiToInt x := by
    rw [kAsciiToInt_of_isDigit hx]
    simp only [isDigit, Bool.and_eq_true, decide_eq_true_eq] at hx; omega
  rw [numeral_cons]
  exact le_trans (Nat.le_mul_of_pos_left _ hd) (Nat.le_add_right _ _)

/-- Two digit runs of one length, compared digit by digit, compare as numbers. -/
theorem compareDigits_eq {p q : Bytes} (hp : ∀ c ∈ p, isDigit c = true)
    (hq : ∀ c ∈ q, isDigit c = true) (hl : p.length = q.length) :
    compareDigits p q = ofOrdering (compare (numeral 10 p) (numeral 10 q)) := by
  induction p generalizing q with
  | nil => cases q with
    | nil => rfl
    | cons _ _ => simp at hl
  | cons x p ih =>
    obtain ⟨y, q, rfl⟩ : ∃ y q', q = y :: q' := List.exists_cons_of_ne_nil (by rintro rfl; simp at hl)
    have hx := hp x (List.mem_cons_self _ _)
    have hy := hq y (List.mem_cons_self _ _)
    have hp' : ∀ c ∈ p, isDigit c = true := fun c h => hp c (List.mem_cons_of_mem _ h)
    have hq' : ∀ c ∈ q, isDigit c = true := fun c h => hq c (List.mem_cons_of_mem _ h)
    have hl' : p.length = q.length := by simpa using hl
    rw [numeral_cons, numeral_cons, ← hl', compare_mul_add (numeral_lt_of_digits hp')
      (hl' ▸ numeral_lt_of_digits hq'), compareDigits, toChar_of_isDigit hx,
      toChar_of_isDigit hy, kAsciiToInt_of_isDigit hx, kAsciiToInt_of_isDigit hy]
    simp only [isDigit, Bool.and_eq_true, decide_eq_true_eq] at hx hy
    rcases Nat.lt_trichotomy x.toNat y.toNat with h | h | h
    · rw [if_pos (by omega), Nat.compare_eq_lt.2 (by omega)]; rfl
    · rw [if_neg (by omega), if_neg (by omega), h, compare_nat_eq (y.toNat - 48),
        if_neg (Nat.lt_irrefl _), if_pos rfl, ih hp' hq' hl']; rfl
    · rw [if_neg (by omega), if_pos (by omega), Nat.compare_eq_gt.2 (by omega)]; rfl

/-- **The run comparison.** For digit runs without leading zeroes, "shorter is smaller,
else the first differing digit" (`strings/numbers.cc:623`-`637`) is the order of their
values. -/
theorem compareRun_eq {p q : Bytes} (hp : NoLeadingZero p) (hq : NoLeadingZero q) :
    (if p.length < q.length then -1 else if p.length > q.length then 1 else compareDigits p q)
      = ofOrdering (compare (numeral 10 p) (numeral 10 q)) := by
  have hnp := numeral_lt_of_digits hp.1
  have hnq := numeral_lt_of_digits hq.1
  rcases Nat.lt_trichotomy p.length q.length with h | h | h
  · obtain ⟨y, q, rfl⟩ : ∃ y q', q = y :: q' := List.exists_cons_of_ne_nil (by rintro rfl; simp at h)
    have := Nat.pow_le_pow_right (show 0 < 10 by decide) (show p.length ≤ q.length by simp at h; omega)
    rw [if_pos h, Nat.compare_eq_lt.2 (by have := pow_le_numeral hq; omega)]; rfl
  · rw [if_neg (by omega), if_neg (by omega), compareDigits_eq hp.1 hq.1 h]
  · obtain ⟨x, p, rfl⟩ : ∃ x p', p = x :: p' := List.exists_cons_of_ne_nil (by rintro rfl; simp at h)
    have := Nat.pow_le_pow_right (show 0 < 10 by decide) (show q.length ≤ p.length by simp at h; omega)
    rw [if_neg (by omega), if_pos h, Nat.compare_eq_gt.2 (by have := pow_le_numeral hp; omega)]; rfl

/-! ## The run at a digit

At a digit the code splits the run as `azeroes` zeroes and `arun`; these say the split
loses nothing the tokens see: the run's value is `arun`'s, its leading zeroes are the
`azeroes` skipped, `arun` has no leading zero, and the loop resumes right after the run. -/

theorem takeWhile_isDigit_split (l : Bytes) :
    l.takeWhile isDigit
      = l.takeWhile (· == zeroChar) ++ (l.dropWhile (· == zeroChar)).takeWhile isDigit := by
  induction l with
  | nil => rfl
  | cons c l ih =>
    by_cases hc : c = zeroChar
    · subst hc
      rw [List.takeWhile_cons_of_pos (show isDigit zeroChar = true by decide), ih,
        List.takeWhile_cons_of_pos (by decide), List.dropWhile_cons_of_pos (by decide)]; rfl
    · rw [List.takeWhile_cons_of_neg (p := (· == zeroChar)) (by simpa using hc),
        List.dropWhile_cons_of_neg (by simpa using hc)]; rfl

theorem leadingZeros_run (l : Bytes) :
    leadingZeros (l.takeWhile isDigit) = (l.takeWhile (· == zeroChar)).length := by
  rw [leadingZeros]
  induction l with
  | nil => rfl
  | cons c l ih =>
    by_cases hc : c = zeroChar
    · subst hc
      rw [List.takeWhile_cons_of_pos (show isDigit zeroChar = true by decide),
        List.takeWhile_cons_of_pos (by decide), List.takeWhile_cons_of_pos (p := (· == zeroChar))
        (by decide), List.length_cons, List.length_cons, ih]
    · have h0 : (c == zeroChar) = false := by simpa using hc
      rw [List.takeWhile_cons_of_neg (p := (· == zeroChar)) (by simp [h0])]
      by_cases hd : isDigit c = true
      · rw [List.takeWhile_cons_of_pos hd, List.takeWhile_cons_of_neg (by simp [h0])]
      · rw [List.takeWhile_cons_of_neg (by simpa using hd)]; rfl

theorem noLeadingZero_run (l : Bytes) :
    NoLeadingZero ((l.dropWhile (· == zeroChar)).takeWhile isDigit) := by
  refine ⟨fun c hc => List.mem_takeWhile_imp hc, ?_⟩
  induction l with
  | nil => simp
  | cons c l ih =>
    by_cases hc : c = zeroChar
    · subst hc; rwa [List.dropWhile_cons_of_pos (by decide)]
    · rw [List.dropWhile_cons_of_neg (by simpa using hc)]
      by_cases hd : isDigit c = true
      · rw [List.takeWhile_cons_of_pos hd]; simpa using hc
      · rw [List.takeWhile_cons_of_neg (by simpa using hd)]; simp

theorem numeral_run (l : Bytes) :
    numeral 10 (l.takeWhile isDigit)
      = numeral 10 ((l.dropWhile (· == zeroChar)).takeWhile isDigit) := by
  have hz : numeral 10 (l.takeWhile (· == zeroChar)) = 0 := by
    induction l with
    | nil => rfl
    | cons c l ih =>
      by_cases hc : c = zeroChar
      · subst hc
        rw [List.takeWhile_cons_of_pos (by decide), numeral_cons, ih,
          show kAsciiToInt zeroChar = 0 from rfl, Nat.zero_mul]
      · rw [List.takeWhile_cons_of_neg (by simpa using hc)]; rfl
  rw [takeWhile_isDigit_split, numeral_append, hz, Nat.zero_mul, Nat.zero_add]

/-! ## The loop is the token comparison -/

theorem then_assoc (o₁ o₂ o₃ : Ordering) : (o₁.then o₂).then o₃ = o₁.then (o₂.then o₃) := by
  cases o₁ <;> rfl

theorem ofOrdering_then (o₁ o₂ : Ordering) :
    ofOrdering (o₁.then o₂) = if ofOrdering o₁ ≠ 0 then ofOrdering o₁ else ofOrdering o₂ := by
  cases o₁ <;> rfl

/-- Where the two bytes are not both digits, the code compares them as `char`s and moves
on by one, which is what the first tokens and the lexicographic step do. -/
theorem byte_branch (a b R : Int) (L : Ordering) (hR : a = b → R = ofOrdering L) :
    (if a < b then -1 else if a > b then 1 else R) = ofOrdering ((compare a b).then L) := by
  rw [compare_int_eq]
  split_ifs <;> first | rfl | omega | exact hR (by omega)

/-- At two digits, the code's cascade of run length, digits and zero counts is the first
tokens' comparison, then the rest. -/
theorem digit_branch (l₁ l₂ : Nat) (cd K : Int) (o : Ordering)
    (hrun : (if l₁ < l₂ then -1 else if l₁ > l₂ then 1 else cd) = ofOrdering o) :
    (if l₁ < l₂ then -1 else if l₁ > l₂ then 1 else if cd ≠ 0 then cd else K)
      = if ofOrdering o ≠ 0 then ofOrdering o else K := by
  rw [← hrun]; split_ifs <;> first | rfl | omega

/-- With equal values, strict mode puts the run with more leading zeroes first. -/
theorem zeros_branch (strict : Bool) (az bz : Nat) (L : Ordering) :
    (if (strict && decide (az ≠ bz)) = true then (if az > bz then -1 else 1) else ofOrdering L)
      = ofOrdering ((if strict = true then compare bz az else .eq).then L) := by
  cases strict
  · rfl
  · simp only [Bool.true_and, decide_eq_true_eq, if_true, compare_nat_eq]
    split_ifs <;> first | rfl | omega

/-- A digit is never the same `char` as a non-digit. -/
theorem toChar_ne_of_isDigit {x y : UInt8} (hx : isDigit x = true) (hy : isDigit y = false) :
    toChar x ≠ toChar y := by
  intro h
  have := (toChar_mem_digits_iff x).2 hx
  rw [h, toChar_mem_digits_iff, hy] at this
  exact Bool.false_ne_true this

/-- The loop against the token sequences, one iteration of the loop to one token of each
string. -/
theorem autoDigitStrCmp_tokens (strict : Bool) : ∀ a b : Bytes,
    autoDigitStrCmp a b strict = ofOrdering (lexCmp (tokenCmp strict) (tokenize a) (tokenize b))
  | [], [] => by rw [autoDigitStrCmp, tokenize.eq_1]; rfl
  | [], y :: ys => by rw [autoDigitStrCmp, tokenize.eq_1, tokenize.eq_2]; split <;> rfl
  | x :: xs, [] => by rw [autoDigitStrCmp, tokenize.eq_1, tokenize.eq_2]; split <;> rfl
  | x :: xs, y :: ys => by
    rw [autoDigitStrCmp.eq_1]
    by_cases hxy : (isDigit x && isDigit y) = true
    · obtain ⟨hx, hy⟩ := Bool.and_eq_true_iff.1 hxy
      have ih := autoDigitStrCmp_tokens strict
        (((x :: xs).dropWhile (· == zeroChar)).dropWhile isDigit)
        (((y :: ys).dropWhile (· == zeroChar)).dropWhile isDigit)
      rw [tokenize.eq_2, dif_pos hx, tokenize.eq_2, dif_pos hy, lexCmp, tokenCmp,
        ← List.takeWhile_cons_of_pos hx, ← List.takeWhile_cons_of_pos hy, numeral_run (x :: xs),
        numeral_run (y :: ys), leadingZeros_run, leadingZeros_run, then_assoc, ofOrdering_then,
        if_pos hxy]
      simp only []
      rw [digit_branch _ _ _ _ _ (compareRun_eq (noLeadingZero_run _) (noLeadingZero_run _)), ih,
        dropWhile_isDigit_dropWhile_zero, dropWhile_isDigit_dropWhile_zero,
        List.dropWhile_cons_of_pos hx, List.dropWhile_cons_of_pos hy, zeros_branch]
    · have ih := autoDigitStrCmp_tokens strict xs ys
      rw [if_neg hxy, tokenize.eq_2, tokenize.eq_2]
      by_cases hx : isDigit x = true
      · have hy : isDigit y = false := by simpa [hx] using hxy
        rw [dif_pos hx, dif_neg (by simp [hy]), lexCmp, tokenCmp, List.headD_cons]
        exact byte_branch _ _ _ _ fun h => absurd h (toChar_ne_of_isDigit hx hy)
      · by_cases hy : isDigit y = true
        · rw [dif_neg hx, dif_pos hy, lexCmp, tokenCmp, List.headD_cons]
          exact byte_branch _ _ _ _ fun h => absurd h.symm (toChar_ne_of_isDigit hy (by simpa using hx))
        · rw [dif_neg hx, dif_neg hy, lexCmp, tokenCmp]
          exact byte_branch _ _ _ _ fun _ => ih
termination_by a => a.length
decreasing_by
  · exact length_rest_lt xs hx
  · simp

/-- **`AutoDigitStrCmp` is the lexicographic comparison of the token sequences**, for every
pair of byte strings and both values of `strict`. -/
theorem autoDigitStrCmp_eq_lexCmp (strict : Bool) (a b : Bytes) :
    autoDigitStrCmp a b strict = ofOrdering (lexCmp (tokenCmp strict) (tokenize a) (tokenize b)) :=
  autoDigitStrCmp_tokens strict a b

end Gaia.Numbers
