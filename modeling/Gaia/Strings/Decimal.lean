/-
Decimal numerals, written and read.

`FastUInt32ToBufferLeft`, `SimpleItoaWithCommas` and `printf`'s `%d` write the digits of a
number; `safe_strto*`, `strtol` and `AutoDigitStrCmp` read a run of digits back as a
number. What the two directions mean is fixed here, once:

* `decimal n`: the digits of `n`, most significant first, `"0"` for zero;
* `pad k n`: the low `k` digits of `n`, zero-padded, which is what a writer that emits a
  fixed number of digits produces (a `two_ASCII_digits` entry, a group between commas);
* `numeral base ds`: the value of a run of digits, each byte read through `kAsciiToInt`,
  accumulated left to right the way every digit loop in the source does it.

The facts the other files use are `numeral_decimal` (reading back what was written gives
the number), `decimal_eq_pad` (a number of exactly `k + 1` digits is written as its `k + 1`
padded digits) and `pad_add` (padded digits split at any position).
-/
import Gaia.Strings.Ascii
import Mathlib.Tactic.Ring
import Mathlib.Tactic.Linarith

set_option autoImplicit false

namespace Gaia

open Ascii

/-! ## Digits -/

/-- The ASCII digit `'0' + d`. -/
def digitChar (d : Nat) : UInt8 := UInt8.ofNat (48 + d)

variable {d : Nat}

theorem digitChar_toNat (h : d < 10) : (digitChar d).toNat = 48 + d :=
  UInt8.toNat_ofNat_of_lt (by unfold UInt8.size; omega)

@[simp] theorem isDigit_digitChar (h : d < 10) : isDigit (digitChar d) = true := by
  simp [isDigit, digitChar_toNat h]; omega

@[simp] theorem kAsciiToInt_digitChar (h : d < 10) : kAsciiToInt (digitChar d) = d := by
  rw [kAsciiToInt_of_isDigit (isDigit_digitChar h), digitChar_toNat h]; omega

/-- A digit byte is the `digitChar` of its value. -/
theorem digitChar_kAsciiToInt {c : UInt8} (h : isDigit c = true) :
    digitChar (kAsciiToInt c) = c := by
  have hv := (kAsciiToInt_lt_ten_iff c).2 h
  apply UInt8.toNat.inj
  rw [digitChar_toNat hv, kAsciiToInt_of_isDigit h]
  simp only [isDigit, Bool.and_eq_true, decide_eq_true_eq] at h
  omega

/-! ## Writing: `decimal` and `pad` -/

/-- `n` in decimal, most significant digit first, `"0"` for zero: what `%d` prints for a
nonnegative value. The last digit comes off the end. -/
def decimal (n : Nat) : Bytes :=
  if n < 10 then [digitChar n] else decimal (n / 10) ++ [digitChar (n % 10)]
termination_by n
decreasing_by omega

/-- The low `k` digits of `n`, most significant first, zero-padded. -/
def pad : Nat → Nat → Bytes
  | 0, _ => []
  | k + 1, n => pad k (n / 10) ++ [digitChar (n % 10)]

variable {k m n : Nat}

theorem decimal_of_lt (h : n < 10) : decimal n = [digitChar n] := by
  rw [decimal, if_pos h]

theorem decimal_of_ge (h : 10 ≤ n) :
    decimal n = decimal (n / 10) ++ [digitChar (n % 10)] := by
  rw [decimal, if_neg (by omega)]

theorem decimal_ne_nil (n : Nat) : decimal n ≠ [] := by
  rw [decimal]; split <;> simp

/-- `decimal` writes no leading zero: its first digit is `'0'` only for zero itself. -/
theorem eq_zero_of_decimal_head (h : (decimal n).head? = some (digitChar 0)) : n = 0 := by
  induction n using Nat.strong_induction_on with
  | _ n ih =>
    rcases Nat.lt_or_ge n 10 with hn | hn
    · rw [decimal_of_lt hn, List.head?_cons, Option.some.injEq] at h
      have := congrArg UInt8.toNat h
      rw [digitChar_toNat hn, digitChar_toNat (by omega)] at this
      omega
    · rw [decimal_of_ge hn, List.head?_append_of_ne_nil _ (decimal_ne_nil _)] at h
      have := ih (n / 10) (by omega) h
      omega

@[simp] theorem pad_length (k n : Nat) : (pad k n).length = k := by
  induction k generalizing n with
  | zero => rfl
  | succ k ih => simp [pad, ih]

/-- Padded digits split anywhere: the high `k` of `k + m` are the digits of `n / 10 ^ m`. -/
theorem pad_add (k m n : Nat) : pad (k + m) n = pad k (n / 10 ^ m) ++ pad m n := by
  induction m generalizing n with
  | zero => simp [pad]
  | succ m ih =>
    rw [← Nat.add_assoc, pad, ih, pad, List.append_assoc, Nat.div_div_eq_div_mul,
      Nat.pow_succ, Nat.mul_comm (10 ^ m)]

/-- The padded digits of `n` only see `n` modulo `10 ^ k`. -/
theorem pad_mod (k n : Nat) : pad k (n % 10 ^ k) = pad k n := by
  induction k generalizing n with
  | zero => rfl
  | succ k ih =>
    have hdiv : n % 10 ^ (k + 1) / 10 = n / 10 % 10 ^ k := by
      rw [Nat.pow_succ, Nat.mul_comm, Nat.mod_mul_right_div_self]
    have hmod : n % 10 ^ (k + 1) % 10 = n % 10 := by
      rw [Nat.pow_succ, Nat.mod_mul_left_mod]
    rw [pad, pad, hdiv, hmod, ih]

/-- A number of exactly `k + 1` digits is written as its `k + 1` padded digits. -/
theorem decimal_eq_pad (h1 : 10 ^ k ≤ n) (h2 : n < 10 ^ (k + 1)) :
    decimal n = pad (k + 1) n := by
  induction k generalizing n with
  | zero =>
    simp only [Nat.pow_zero, Nat.zero_add, Nat.pow_one] at h1 h2
    rw [decimal_of_lt h2, pad, pad, Nat.mod_eq_of_lt h2]; rfl
  | succ k ih =>
    have h10 : 10 ≤ n := le_trans (Nat.le_self_pow (by omega) 10) h1
    rw [decimal_of_ge h10, pad, ih]
    · exact (Nat.le_div_iff_mul_le (by omega)).2 (by rwa [← Nat.pow_succ])
    · exact Nat.div_lt_of_lt_mul (by rwa [Nat.mul_comm, ← Nat.pow_succ])

/-- The digits of a number of more than `k` digits: the digits of its high part, then its
low `k` digits padded. -/
theorem decimal_eq_append_pad (k : Nat) {n : Nat} (h : 10 ^ k ≤ n) :
    decimal n = decimal (n / 10 ^ k) ++ pad k n := by
  induction k generalizing n with
  | zero => simp [pad]
  | succ k ih =>
    have h10 : 10 ≤ n := le_trans (Nat.le_self_pow (by omega) 10) h
    rw [decimal_of_ge h10, ih ((Nat.le_div_iff_mul_le (by omega)).2 (by rwa [← Nat.pow_succ])),
      pad, List.append_assoc, Nat.div_div_eq_div_mul, ← Nat.pow_succ']

theorem decimal_length_le (hk : 0 < k) (h : n < 10 ^ k) : (decimal n).length ≤ k := by
  induction n using Nat.strong_induction_on generalizing k with
  | _ n ih =>
    rcases Nat.lt_or_ge n 10 with hn | hn
    · rw [decimal_of_lt hn]; simpa using hk
    · obtain ⟨k, rfl⟩ : ∃ j, k = j + 1 := ⟨k - 1, by omega⟩
      have hk' : 0 < k := Nat.pos_of_ne_zero (by rintro rfl; simp at h; omega)
      have := ih (n / 10) (by omega) hk'
        (Nat.div_lt_of_lt_mul (by rwa [Nat.mul_comm, ← Nat.pow_succ]))
      rw [decimal_of_ge hn, List.length_append, List.length_singleton]; omega

theorem isDigit_of_mem_decimal {c : UInt8} (h : c ∈ decimal n) : isDigit c = true := by
  induction n using Nat.strong_induction_on with
  | _ n ih =>
    rcases Nat.lt_or_ge n 10 with hn | hn
    · rw [decimal_of_lt hn, List.mem_singleton] at h; rw [h]; exact isDigit_digitChar hn
    · rw [decimal_of_ge hn, List.mem_append, List.mem_singleton] at h
      rcases h with h | rfl
      · exact ih (n / 10) (by omega) h
      · exact isDigit_digitChar (Nat.mod_lt _ (by omega))

theorem isDigit_of_mem_pad {c : UInt8} (h : c ∈ pad k n) : isDigit c = true := by
  induction k generalizing n with
  | zero => simp [pad] at h
  | succ k ih =>
    rw [pad, List.mem_append, List.mem_singleton] at h
    rcases h with h | rfl
    · exact ih h
    · exact isDigit_digitChar (Nat.mod_lt _ (by omega))

/-! ## Reading: `numeral` -/

/-- The value of the run `ds` in `base`: `value = value * base + digit` for each byte, left
to right, from `0`. -/
def numeral (base : Nat) (ds : Bytes) : Nat :=
  ds.foldl (fun acc c => acc * base + kAsciiToInt c) 0

variable {base : Nat}

theorem foldl_digits (base acc : Nat) (ds : Bytes) :
    ds.foldl (fun acc c => acc * base + kAsciiToInt c) acc
      = acc * base ^ ds.length + numeral base ds := by
  unfold numeral
  induction ds generalizing acc with
  | nil => simp
  | cons c ds ih =>
    rw [List.foldl_cons, List.foldl_cons, ih, ih (0 * base + kAsciiToInt c), List.length_cons,
      Nat.pow_succ]
    ring

@[simp] theorem numeral_nil : numeral base [] = 0 := rfl

@[simp] theorem numeral_singleton (c : UInt8) : numeral base [c] = kAsciiToInt c := by
  simp [numeral]

theorem numeral_append (xs ys : Bytes) :
    numeral base (xs ++ ys) = numeral base xs * base ^ ys.length + numeral base ys := by
  rw [numeral, List.foldl_append, foldl_digits]; rfl

theorem numeral_cons (c : UInt8) (ds : Bytes) :
    numeral base (c :: ds) = kAsciiToInt c * base ^ ds.length + numeral base ds := by
  rw [← List.singleton_append, numeral_append]; simp [numeral]

/-- **Reading back what `decimal` wrote gives the number.** -/
theorem numeral_decimal (n : Nat) : numeral 10 (decimal n) = n := by
  induction n using Nat.strong_induction_on with
  | _ n ih =>
    rcases Nat.lt_or_ge n 10 with hn | hn
    · rw [decimal_of_lt hn]; simp [numeral, kAsciiToInt_digitChar hn]
    · rw [decimal_of_ge hn, numeral_append, ih _ (by omega), numeral_singleton,
        kAsciiToInt_digitChar (Nat.mod_lt _ (by omega))]
      simp only [List.length_singleton, Nat.pow_one]
      omega

theorem numeral_pad (k n : Nat) : numeral 10 (pad k n) = n % 10 ^ k := by
  induction k generalizing n with
  | zero => simp [pad, Nat.mod_one]
  | succ k ih =>
    rw [pad, numeral_append, ih, numeral_singleton,
      kAsciiToInt_digitChar (Nat.mod_lt _ (by omega)), List.length_singleton, Nat.pow_one,
      Nat.pow_succ, Nat.mul_comm (10 ^ k) 10, Nat.mod_mul]
    ring

/-- **Writing back what was read gives the run**: a run of decimal digits is the padded
digits of its value, leading zeroes included. -/
theorem pad_numeral {ds : Bytes} (h : ∀ c ∈ ds, isDigit c = true) :
    pad ds.length (numeral 10 ds) = ds := by
  induction ds using List.reverseRecOn with
  | nil => rfl
  | append_singleton ds c ih =>
    have hc := (kAsciiToInt_lt_ten_iff c).2 (h c (by simp))
    have hdiv : (numeral 10 ds * 10 + kAsciiToInt c) / 10 = numeral 10 ds := by omega
    have hmod : (numeral 10 ds * 10 + kAsciiToInt c) % 10 = kAsciiToInt c := by omega
    rw [numeral_append, numeral_singleton, List.length_append, List.length_singleton, pad,
      Nat.pow_one, hdiv, hmod, digitChar_kAsciiToInt (h c (by simp)),
      ih fun x hx => h x (by simp [hx])]

/-- A run of digits below `base` is worth less than `base ^ length`. -/
theorem numeral_lt {ds : Bytes} (h : ∀ c ∈ ds, kAsciiToInt c < base) :
    numeral base ds < base ^ ds.length := by
  induction ds using List.reverseRecOn with
  | nil => simp
  | append_singleton ds c ih =>
    have hc := h c (by simp)
    have hds := ih fun x hx => h x (by simp [hx])
    rw [numeral_append, numeral_singleton, List.length_append, List.length_singleton,
      Nat.pow_one, Nat.pow_succ]
    calc numeral base ds * base + kAsciiToInt c
        < (numeral base ds + 1) * base := by rw [Nat.succ_mul]; omega
      _ ≤ base ^ ds.length * base := Nat.mul_le_mul_right _ hds

end Gaia
