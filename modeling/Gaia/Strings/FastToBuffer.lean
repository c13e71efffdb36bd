/-
`FastUInt32ToBufferLeft` (`strings/numbers.cc:493`): a `uint32` written in decimal at the
start of a buffer, two digits at a time, by a goto-threaded function.

The function is a chain of labels. From the top, `u >= 1000000000` writes the first two
digits and falls through `sublt100_000_000:`, `lt100_000_000:`, ..., `lt100:` and `done:`,
two digits a label pair. Shorter numbers enter the chain lower down, either at an `ltN:`
label (an even number of digits) or, after writing one digit, at a `subltN:` label (an odd
number). Each label is a definition here and falls through by calling the next one; the
`ltN:` and `subltN:` labels are two parametrised bodies, `lt` and `sublt`, applied to the
constants the source writes.

The state is the function's registers and what it has done: the bytes stored and where,
the indices `two_ASCII_digits` was read at, and the `int` products `digits * 10^j`. The
products are kept as mathematical integers; `u -= digits * D` subtracts the product
converted to `uint32`, that is modulo `2^32`.

What every label does is one predicate, `Emits`: the low `n` digits of `u` and a NUL from
`buffer` on, reads in bounds, products no larger than `u`. `lt_emits` and `sublt_emits` say
each label body keeps it, and the entry points assemble it (`fastUInt32ToBufferLeft_spec`).
The product in front of the chain is the one that can leave `int`:
`fastUInt32ToBufferLeft_products_in_range_iff`.
-/
import Gaia.Strings.SafeStrto
import Mathlib.Data.BitVec

set_option autoImplicit false

namespace Gaia.Numbers

open Ascii

/-! ## The code -/

/-- `two_ASCII_digits` (`strings/numbers.cc:453`), laid out as the source lays it out. -/
def twoASCIIDigits : List (Char × Char) := [
  ('0', '0'), ('0', '1'), ('0', '2'), ('0', '3'), ('0', '4'),
  ('0', '5'), ('0', '6'), ('0', '7'), ('0', '8'), ('0', '9'),
  ('1', '0'), ('1', '1'), ('1', '2'), ('1', '3'), ('1', '4'),
  ('1', '5'), ('1', '6'), ('1', '7'), ('1', '8'), ('1', '9'),
  ('2', '0'), ('2', '1'), ('2', '2'), ('2', '3'), ('2', '4'),
  ('2', '5'), ('2', '6'), ('2', '7'), ('2', '8'), ('2', '9'),
  ('3', '0'), ('3', '1'), ('3', '2'), ('3', '3'), ('3', '4'),
  ('3', '5'), ('3', '6'), ('3', '7'), ('3', '8'), ('3', '9'),
  ('4', '0'), ('4', '1'), ('4', '2'), ('4', '3'), ('4', '4'),
  ('4', '5'), ('4', '6'), ('4', '7'), ('4', '8'), ('4', '9'),
  ('5', '0'), ('5', '1'), ('5', '2'), ('5', '3'), ('5', '4'),
  ('5', '5'), ('5', '6'), ('5', '7'), ('5', '8'), ('5', '9'),
  ('6', '0'), ('6', '1'), ('6', '2'), ('6', '3'), ('6', '4'),
  ('6', '5'), ('6', '6'), ('6', '7'), ('6', '8'), ('6', '9'),
  ('7', '0'), ('7', '1'), ('7', '2'), ('7', '3'), ('7', '4'),
  ('7', '5'), ('7', '6'), ('7', '7'), ('7', '8'), ('7', '9'),
  ('8', '0'), ('8', '1'), ('8', '2'), ('8', '3'), ('8', '4'),
  ('8', '5'), ('8', '6'), ('8', '7'), ('8', '8'), ('8', '9'),
  ('9', '0'), ('9', '1'), ('9', '2'), ('9', '3'), ('9', '4'),
  ('9', '5'), ('9', '6'), ('9', '7'), ('9', '8'), ('9', '9') ]

/-- An `int` stored into a `char`: its low eight bits. -/
def charOfInt (v : Int) : UInt8 := (v % 256).toNat.toUInt8

/-- The registers of `FastUInt32ToBufferLeft`, with `buffer` as an offset from where the
caller's buffer starts, and what the function has done so far: the bytes it stored
(offset and byte, in order), the indices it read `two_ASCII_digits` at, and the `int`
products it computed. -/
structure Regs where
  u : BitVec 32
  digits : Int
  buffer : Nat
  writes : List (Nat × UInt8)
  indices : List Int
  products : List Int

/-- `ASCII_digits = two_ASCII_digits[digits]; buffer[0] = ASCII_digits[0];
buffer[1] = ASCII_digits[1]; buffer += 2;` -/
def putTwoDigits (s : Regs) : Regs :=
  let pair := twoASCIIDigits.getD s.digits.toNat ('0', '0')
  { s with
    writes := s.writes ++ [(s.buffer, charByte pair.1), (s.buffer + 1, charByte pair.2)]
    buffer := s.buffer + 2
    indices := s.indices ++ [s.digits] }

/-- `*buffer++ = '0' + digits;` -/
def putDigit (s : Regs) : Regs :=
  { s with writes := s.writes ++ [(s.buffer, charOfInt (48 + s.digits))], buffer := s.buffer + 1 }

/-- `digits = u / D;`: an unsigned division, converted to `int`. -/
def divide (D : Nat) (s : Regs) : Regs := { s with digits := (s.u / BitVec.ofNat 32 D).toInt }

/-- `u -= digits * D;`: an `int` product, converted to `uint32` to be subtracted. -/
def subtract (D : Nat) (s : Regs) : Regs :=
  { s with u := s.u - BitVec.ofInt 32 (s.digits * D), products := s.products ++ [s.digits * D] }

/-- `done:` -/
def done (s : Regs) : Regs := { s with writes := s.writes ++ [(s.buffer, 0)] }

/-- `lt100:` `digits = u;` and the last two digits, then `done:`. -/
def lt100 (s : Regs) : Regs := done (putTwoDigits { s with digits := s.u.toInt })

/-- A `subltN:` label: `u -= digits * D;`, then on into the `ltN:` label below it. -/
def sublt (D : Nat) (next : Regs → Regs) (s : Regs) : Regs := next (subtract D s)

/-- An `ltN:` label: `digits = u / D;` and two digits, then on into the `subltN:` label below
it. -/
def lt (D : Nat) (next : Regs → Regs) (s : Regs) : Regs := next (putTwoDigits (divide D s))

def sublt100 : Regs → Regs := sublt 100 lt100
def lt10_000 : Regs → Regs := lt 100 sublt100
def sublt10_000 : Regs → Regs := sublt 10000 lt10_000
def lt1_000_000 : Regs → Regs := lt 10000 sublt10_000
def sublt1_000_000 : Regs → Regs := sublt 1000000 lt1_000_000
def lt100_000_000 : Regs → Regs := lt 1000000 sublt1_000_000
def sublt100_000_000 : Regs → Regs := sublt 100000000 lt100_000_000

/-- The registers on entry: `u`, `buffer` at the start of the caller's buffer, nothing done
yet. `digits` is not read before it is set. -/
def entry (u : BitVec 32) : Regs := ⟨u, 0, 0, [], [], []⟩

/-- `FastUInt32ToBufferLeft(u, buffer)`; the returned pointer is the final `buffer`. -/
def fastUInt32ToBufferLeft (u : BitVec 32) : Regs :=
  let s := entry u
  -- the body of an `ltN:` label without a label of its own
  if u.toNat ≥ 1000000000 then lt 100000000 sublt100_000_000 s
  else if u.toNat < 100 then
    let s := { s with digits := u.toInt }
    if u.toNat ≥ 10 then lt100 s else done (putDigit s)
  else if u.toNat < 10000 then
    if u.toNat ≥ 1000 then lt10_000 s else sublt100 (putDigit (divide 100 s))
  else if u.toNat < 1000000 then
    if u.toNat ≥ 100000 then lt1_000_000 s else sublt10_000 (putDigit (divide 10000 s))
  else if u.toNat < 100000000 then
    if u.toNat ≥ 10000000 then lt100_000_000 s else sublt1_000_000 (putDigit (divide 1000000 s))
  else sublt100_000_000 (putDigit (divide 100000000 s))

/-! ## One step at a time -/

section Fields

variable (s : Regs) (D : Nat)

@[simp] theorem putTwoDigits_u : (putTwoDigits s).u = s.u := rfl
@[simp] theorem putTwoDigits_digits : (putTwoDigits s).digits = s.digits := rfl
@[simp] theorem putTwoDigits_buffer : (putTwoDigits s).buffer = s.buffer + 2 := rfl
@[simp] theorem putTwoDigits_indices : (putTwoDigits s).indices = s.indices ++ [s.digits] := rfl
@[simp] theorem putTwoDigits_products : (putTwoDigits s).products = s.products := rfl
@[simp] theorem putDigit_u : (putDigit s).u = s.u := rfl
@[simp] theorem putDigit_digits : (putDigit s).digits = s.digits := rfl
@[simp] theorem putDigit_buffer : (putDigit s).buffer = s.buffer + 1 := rfl
@[simp] theorem putDigit_indices : (putDigit s).indices = s.indices := rfl
@[simp] theorem putDigit_products : (putDigit s).products = s.products := rfl
@[simp] theorem divide_u : (divide D s).u = s.u := rfl
@[simp] theorem divide_buffer : (divide D s).buffer = s.buffer := rfl
@[simp] theorem divide_writes : (divide D s).writes = s.writes := rfl
@[simp] theorem divide_indices : (divide D s).indices = s.indices := rfl
@[simp] theorem divide_products : (divide D s).products = s.products := rfl
@[simp] theorem subtract_digits : (subtract D s).digits = s.digits := rfl
@[simp] theorem subtract_buffer : (subtract D s).buffer = s.buffer := rfl
@[simp] theorem subtract_writes : (subtract D s).writes = s.writes := rfl
@[simp] theorem subtract_indices : (subtract D s).indices = s.indices := rfl
@[simp] theorem subtract_products :
    (subtract D s).products = s.products ++ [s.digits * D] := rfl

end Fields

/-- The table entry at `d` is the two digits of `d`. -/
theorem twoASCIIDigits_getD : ∀ d < 100,
    [charByte (twoASCIIDigits.getD d ('0', '0')).1, charByte (twoASCIIDigits.getD d ('0', '0')).2]
      = pad 2 d := by
  decide

theorem putTwoDigits_writes (s : Regs) (h0 : 0 ≤ s.digits) (h1 : s.digits < 100) :
    (putTwoDigits s).writes = s.writes ++ (pad 2 s.digits.toNat).enumFrom s.buffer := by
  rw [← twoASCIIDigits_getD _ (by omega)]; rfl

theorem putDigit_writes (s : Regs) (h0 : 0 ≤ s.digits) (h1 : s.digits < 10) :
    (putDigit s).writes = s.writes ++ (pad 1 s.digits.toNat).enumFrom s.buffer := by
  have hc : charOfInt (48 + s.digits) = digitChar s.digits.toNat := by
    apply UInt8.toNat.inj
    rw [digitChar_toNat (by omega)]
    simp only [charOfInt, Nat.toUInt8]
    rw [UInt8.toNat_ofNat_of_lt (by unfold UInt8.size; omega)]
    omega
  simp only [putDigit, pad, Nat.zero_div, List.nil_append, hc, Nat.mod_eq_of_lt
    (show s.digits.toNat < 10 by omega)]
  rfl

/-- `digits = u / D` is the quotient, for every divisor the code uses. -/
theorem divide_digits {D : Nat} (h1 : 2 ≤ D) (h2 : D < 2 ^ 32) (s : Regs) :
    (divide D s).digits = (s.u.toNat / D : Nat) := by
  have hu := s.u.isLt
  have hq : s.u.toNat / D ≤ s.u.toNat / 2 := Nat.div_le_div_left h1 (by omega)
  simp only [divide, BitVec.toInt_eq_toNat_cond, BitVec.toNat_udiv, BitVec.toNat_ofNat,
    Nat.mod_eq_of_lt h2]
  rw [if_pos (by omega)]

theorem toInt_of_lt {u : BitVec 32} (h : u.toNat < 2 ^ 31) : u.toInt = u.toNat := by
  rw [BitVec.toInt_eq_toNat_cond, if_pos (by omega)]

/-- `u -= digits * D` with `digits = u / D` leaves `u % D`. -/
theorem subtract_u {D : Nat} (s : Regs) (hd : s.digits = (s.u.toNat / D : Nat)) :
    (subtract D s).u.toNat = s.u.toNat % D := by
  have hu := s.u.isLt
  have hmod := Nat.div_add_mod' s.u.toNat D
  simp only [subtract, hd, BitVec.toNat_sub, BitVec.toNat_ofInt, ← Nat.cast_mul,
    ← Int.natCast_mod, Int.toNat_ofNat]
  omega

/-! ## What a label does -/

/-- What a label does from `s` to the function's return: it stores the low `n` digits of
`u`, zero-padded, and a NUL from `buffer` on, and nothing else; it leaves `buffer` past the
digits; it reads `two_ASCII_digits` in bounds only; and every product it computes lies in
`[0, u]`. -/
structure Emits (n : Nat) (s s' : Regs) : Prop where
  buffer : s'.buffer = s.buffer + n
  writes : s'.writes = s.writes ++ (pad n s.u.toNat ++ [0]).enumFrom s.buffer
  indices : ∃ I, s'.indices = s.indices ++ I ∧ ∀ i ∈ I, 0 ≤ i ∧ i < 100
  products : ∃ P, s'.products = s.products ++ P ∧ ∀ p ∈ P, 0 ≤ p ∧ p ≤ s.u.toNat

/-- `Emits` does not look at `digits` on entry. -/
theorem Emits.of_digits {n : Nat} {s s' : Regs} {d : Int} (h : Emits n { s with digits := d } s') :
    Emits n s s' :=
  ⟨h.1, h.2, h.3, h.4⟩

theorem done_emits (s : Regs) : Emits 0 s (done s) :=
  ⟨rfl, rfl, ⟨[], by simp [done]⟩, ⟨[], by simp [done]⟩⟩

/-- Digits `W` written at `buffer` in front of what the next label emits: the high digits
of a longer number. -/
theorem Emits.prepend {m n : Nat} {s t s' : Regs} (h : Emits n t s') (W : Bytes) (J : List Int)
    (hJ : ∀ i ∈ J, 0 ≤ i ∧ i < 100) (hW : W ++ pad n s.u.toNat = pad (m + n) s.u.toNat)
    (hu : t.u = s.u) (hb : t.buffer = s.buffer + W.length)
    (hw : t.writes = s.writes ++ W.enumFrom s.buffer) (hi : t.indices = s.indices ++ J)
    (hp : t.products = s.products) : Emits (m + n) s s' := by
  obtain ⟨hb', hw', ⟨I, hI, hI'⟩, ⟨P, hP, hP'⟩⟩ := h
  have hm : W.length = m := by simpa using congrArg List.length hW
  rw [hu] at hw' hP'
  refine ⟨by omega, ?_, ⟨J ++ I, by simp [hI, hi], ?_⟩, ⟨P, by rw [hP, hp], hP'⟩⟩
  · rw [hw', hw, hb, List.append_assoc, ← hW, List.append_assoc, List.enumFrom_append W]
  · simpa only [List.mem_append] using fun i hi => hi.elim (hJ i) (hI' i)

/-- `lt100:` on a `u` below `100`: its two digits. -/
theorem lt100_emits {s : Regs} (hu : s.u.toNat < 100) : Emits 2 s (lt100 s) := by
  have hd : s.u.toInt = s.u.toNat := toInt_of_lt (by omega)
  refine (done_emits _).prepend (pad 2 s.u.toNat) [s.u.toNat] (by simp [hu]) rfl rfl rfl ?_
    (by simp [hd]) rfl
  rw [putTwoDigits_writes _ (by simp [hd]) (by simp [hd, hu]), hd]; rfl

/-- A `subltN:` label, entered with `digits = u / D`: the low digits of `u`. -/
theorem sublt_emits {D n : Nat} {next : Regs → Regs} (hD : D = 10 ^ n)
    (hnext : ∀ s : Regs, s.u.toNat < D → Emits n s (next s)) {s : Regs}
    (hd : s.digits = (s.u.toNat / D : Nat)) : Emits n s (sublt D next s) := by
  show Emits n s (next (subtract D s))
  have hu := subtract_u s hd
  obtain ⟨hb, hw, hI, ⟨P, hP, hP'⟩⟩ :=
    hnext (subtract D s) (by rw [hu, hD]; exact Nat.mod_lt _ (by positivity))
  simp only [subtract_buffer, subtract_writes, subtract_indices, subtract_products, hu] at hb hw hI hP hP'
  refine ⟨hb, by rw [hw, hD, pad_mod], hI, ⟨s.digits * D :: P, by simp [hP], ?_⟩⟩
  have hle : s.u.toNat / D * D ≤ s.u.toNat := Nat.div_mul_le_self _ _
  have hmod : s.u.toNat % D ≤ s.u.toNat := Nat.mod_le _ _
  simp only [List.mem_cons, forall_eq_or_imp, hd]
  exact ⟨⟨by positivity, by exact_mod_cast hle⟩, fun p hp => ⟨(hP' p hp).1, by
    have := (hP' p hp).2; omega⟩⟩

/-- An `ltN:` label, entered with `u < 100 * D`: two digits, then the `subltN:` label. -/
theorem lt_emits {D n : Nat} {next : Regs → Regs} (hD : D = 10 ^ n) (h2 : 2 ≤ D)
    (h32 : D < 2 ^ 32) (hnext : ∀ s : Regs, s.digits = (s.u.toNat / D : Nat) → Emits n s (next s))
    {s : Regs} (hu : s.u.toNat < 100 * D) : Emits (2 + n) s (lt D next s) := by
  have hd := divide_digits h2 h32 s
  have hq : s.u.toNat / D < 100 := Nat.div_lt_of_lt_mul (by rwa [Nat.mul_comm])
  refine (hnext _ (by simp [hd])).prepend (pad 2 (s.u.toNat / D)) [((s.u.toNat / D : Nat) : Int)]
    ?_ ?_ rfl rfl ?_ (by simp [hd]) rfl
  · simp only [List.mem_singleton, forall_eq]; exact ⟨by positivity, by exact_mod_cast hq⟩
  · rw [pad_add, hD]
  · rw [putTwoDigits_writes _ (by rw [hd]; positivity) (by rw [hd]; exact_mod_cast hq), hd]; rfl

/-- One digit written by `*buffer++ = '0' + digits`, then on into a label. -/
theorem putDigit_emits {D n : Nat} {next : Regs → Regs} (hD : D = 10 ^ n)
    (hnext : ∀ s : Regs, s.digits = (s.u.toNat / D : Nat) → Emits n s (next s)) {s : Regs}
    (hd : s.digits = (s.u.toNat / D : Nat)) (hu : s.u.toNat < 10 * D) :
    Emits (1 + n) s (next (putDigit s)) := by
  have hq : s.u.toNat / D < 10 := Nat.div_lt_of_lt_mul (by rwa [Nat.mul_comm])
  refine (hnext (putDigit s) hd).prepend (pad 1 (s.u.toNat / D)) [] (by simp) ?_ rfl rfl ?_
    (by simp) rfl
  · rw [pad_add, hD]
  · rw [putDigit_writes _ (by rw [hd]; positivity) (by rw [hd]; exact_mod_cast hq), hd]; rfl

/-! ## The chain of labels -/

theorem sublt100_emits (s : Regs) (hd : s.digits = (s.u.toNat / 100 : Nat)) :
    Emits 2 s (sublt100 s) :=
  sublt_emits (show 100 = 10 ^ 2 by norm_num) (fun _ => lt100_emits) hd

theorem lt10_000_emits (s : Regs) (hu : s.u.toNat < 10000) : Emits 4 s (lt10_000 s) :=
  lt_emits (show 100 = 10 ^ 2 by norm_num) (by norm_num) (by norm_num) sublt100_emits
    (by omega)

theorem sublt10_000_emits (s : Regs) (hd : s.digits = (s.u.toNat / 10000 : Nat)) :
    Emits 4 s (sublt10_000 s) :=
  sublt_emits (show 10000 = 10 ^ 4 by norm_num) lt10_000_emits hd

theorem lt1_000_000_emits (s : Regs) (hu : s.u.toNat < 1000000) : Emits 6 s (lt1_000_000 s) :=
  lt_emits (show 10000 = 10 ^ 4 by norm_num) (by norm_num) (by norm_num) sublt10_000_emits
    (by omega)

theorem sublt1_000_000_emits (s : Regs) (hd : s.digits = (s.u.toNat / 1000000 : Nat)) :
    Emits 6 s (sublt1_000_000 s) :=
  sublt_emits (show 1000000 = 10 ^ 6 by norm_num) lt1_000_000_emits hd

theorem lt100_000_000_emits (s : Regs) (hu : s.u.toNat < 100000000) :
    Emits 8 s (lt100_000_000 s) :=
  lt_emits (show 1000000 = 10 ^ 6 by norm_num) (by norm_num) (by norm_num) sublt1_000_000_emits
    (by omega)

theorem sublt100_000_000_emits (s : Regs) (hd : s.digits = (s.u.toNat / 100000000 : Nat)) :
    Emits 8 s (sublt100_000_000 s) :=
  sublt_emits (show 100000000 = 10 ^ 8 by norm_num) lt100_000_000_emits hd

/-! ## The entry points -/

/-- Every `u` enters the chain at the label for its number of digits, so the function
emits exactly the `k` digits `decimal` writes, `k ≤ 10`. -/
theorem fastUInt32ToBufferLeft_emits (u : BitVec 32) :
    ∃ k, pad k u.toNat = decimal u.toNat ∧ k ≤ 10 ∧
      Emits k (entry u) (fastUInt32ToBufferLeft u) := by
  have hu := u.isLt
  have hdiv (D : Nat) (h2 : 2 ≤ D) (h32 : D < 2 ^ 32) := divide_digits h2 h32 (entry u)
  rw [fastUInt32ToBufferLeft]
  by_cases h1 : u.toNat ≥ 1000000000
  · rw [if_pos h1]
    exact ⟨10, (decimal_eq_pad (by norm_num; omega) (by norm_num; omega)).symm, le_rfl,
      lt_emits (show 100000000 = 10 ^ 8 by norm_num) (by norm_num) (by norm_num)
        sublt100_000_000_emits (show u.toNat < 100 * 100000000 by omega)⟩
  rw [if_neg h1]
  by_cases h2 : u.toNat < 100
  · rw [if_pos h2]
    by_cases h3 : u.toNat ≥ 10
    · rw [if_pos h3]
      exact ⟨2, (decimal_eq_pad (by norm_num; omega) (by norm_num; omega)).symm, by norm_num,
        (lt100_emits h2).of_digits⟩
    · rw [if_neg h3]
      refine ⟨1, by rw [decimal_of_lt (by omega)]; simp [pad, Nat.mod_eq_of_lt (by omega : u.toNat < 10)],
        by norm_num, (putDigit_emits (show 1 = 10 ^ 0 by norm_num) (fun s _ => done_emits s) ?_
          (show u.toNat < 10 * 1 by omega)).of_digits⟩
      rw [Nat.div_one]; exact toInt_of_lt (by omega)
  rw [if_neg h2]
  by_cases h4 : u.toNat < 10000
  · rw [if_pos h4]
    by_cases h5 : u.toNat ≥ 1000
    · rw [if_pos h5]
      exact ⟨4, (decimal_eq_pad (by norm_num; omega) (by norm_num; omega)).symm, by norm_num,
        lt10_000_emits _ h4⟩
    · rw [if_neg h5]
      exact ⟨3, (decimal_eq_pad (by norm_num; omega) (by norm_num; omega)).symm, by norm_num,
        (putDigit_emits (show 100 = 10 ^ 2 by norm_num) sublt100_emits
          (hdiv 100 (by norm_num) (by norm_num)) (show u.toNat < 10 * 100 by omega)).of_digits⟩
  rw [if_neg h4]
  by_cases h6 : u.toNat < 1000000
  · rw [if_pos h6]
    by_cases h7 : u.toNat ≥ 100000
    · rw [if_pos h7]
      exact ⟨6, (decimal_eq_pad (by norm_num; omega) (by norm_num; omega)).symm, by norm_num,
        lt1_000_000_emits _ h6⟩
    · rw [if_neg h7]
      exact ⟨5, (decimal_eq_pad (by norm_num; omega) (by norm_num; omega)).symm, by norm_num,
        (putDigit_emits (show 10000 = 10 ^ 4 by norm_num) sublt10_000_emits
          (hdiv 10000 (by norm_num) (by norm_num)) (show u.toNat < 10 * 10000 by omega)).of_digits⟩
  rw [if_neg h6]
  by_cases h8 : u.toNat < 100000000
  · rw [if_pos h8]
    by_cases h9 : u.toNat ≥ 10000000
    · rw [if_pos h9]
      exact ⟨8, (decimal_eq_pad (by norm_num; omega) (by norm_num; omega)).symm, by norm_num,
        lt100_000_000_emits _ h8⟩
    · rw [if_neg h9]
      exact ⟨7, (decimal_eq_pad (by norm_num; omega) (by norm_num; omega)).symm, by norm_num,
        (putDigit_emits (show 1000000 = 10 ^ 6 by norm_num) sublt1_000_000_emits
          (hdiv 1000000 (by norm_num) (by norm_num)) (show u.toNat < 10 * 1000000 by omega)).of_digits⟩
  rw [if_neg h8]
  exact ⟨9, (decimal_eq_pad (by norm_num; omega) (by norm_num; omega)).symm, by norm_num,
    (putDigit_emits (show 100000000 = 10 ^ 8 by norm_num) sublt100_000_000_emits
      (hdiv 100000000 (by norm_num) (by norm_num))
      (show u.toNat < 10 * 100000000 by omega)).of_digits⟩

/-- **`FastUInt32ToBufferLeft` writes the decimal digits of `u` and a NUL.** For every `u`, it
stores the `k ≤ 10` digits `decimal` writes at `buffer[0..k)`, then `0` at `buffer[k]`, one
store each and no other; it returns `buffer + k`; and it reads `two_ASCII_digits` only at
indices in `[0, 100)`. -/
theorem fastUInt32ToBufferLeft_spec (u : BitVec 32) :
    (fastUInt32ToBufferLeft u).writes = (decimal u.toNat ++ [0]).enum ∧
    (fastUInt32ToBufferLeft u).buffer = (decimal u.toNat).length ∧
    (decimal u.toNat).length ≤ 10 ∧
    ∀ i ∈ (fastUInt32ToBufferLeft u).indices, 0 ≤ i ∧ i < 100 := by
  obtain ⟨k, hk, hk10, hb, hw, ⟨I, hI, hI'⟩, -⟩ := fastUInt32ToBufferLeft_emits u
  rw [← hk, pad_length]
  exact ⟨hw, hb.trans (Nat.zero_add k), hk10, by simpa [entry, hI] using hI'⟩

/-! ## Signed overflow -/

/-- On the ten-digit path the first product is `(u / 10^8) * 10^8`, and the rest are below
`10^8`. -/
theorem products_of_ge {u : BitVec 32} (hu : 1000000000 ≤ u.toNat) :
    ∃ P, (fastUInt32ToBufferLeft u).products
        = ((u.toNat / 100000000 * 100000000 : Nat) : Int) :: P ∧
      ∀ p ∈ P, 0 ≤ p ∧ p < 100000000 := by
  let t := putTwoDigits (divide 100000000 (entry u))
  have hd : t.digits = (u.toNat / 100000000 : Nat) := divide_digits (by norm_num) (by norm_num) _
  have ht := subtract_u t hd
  obtain ⟨-, -, -, ⟨P, hP, hP'⟩⟩ :=
    lt100_000_000_emits (subtract 100000000 t) (by rw [ht]; exact Nat.mod_lt _ (by norm_num))
  refine ⟨P, ?_, fun p hp => ?_⟩
  · rw [fastUInt32ToBufferLeft, if_pos hu, lt, sublt100_000_000, sublt, hP, subtract_products, hd]
    simp [t, entry]
  · have := hP' p hp
    rw [ht] at this
    omega

/-- **`FastUInt32ToBufferLeft` overflows `int` exactly when `u ≥ 2,200,000,000`**: then
`digits = u / 100000000` is at least `22` and `digits * 100000000` exceeds `INT32_MAX`;
below it every product it computes is an `int`. -/
theorem fastUInt32ToBufferLeft_products_in_range_iff (u : BitVec 32) :
    (∀ p ∈ (fastUInt32ToBufferLeft u).products, IntType.int32.min ≤ p ∧ p ≤ IntType.int32.max)
      ↔ u.toNat < 2200000000 := by
  have hmin : IntType.int32.min = -2147483648 := rfl
  have hmax : IntType.int32.max = 2147483647 := rfl
  rw [hmin, hmax]
  by_cases hu : 1000000000 ≤ u.toNat
  · obtain ⟨P, hP, hP'⟩ := products_of_ge hu
    rw [hP, List.forall_mem_cons]
    constructor
    · rintro ⟨⟨-, h⟩, -⟩
      omega
    · intro h
      exact ⟨⟨by omega, by omega⟩, fun p hp => by have := hP' p hp; omega⟩
  · obtain ⟨k, -, -, -, -, -, ⟨P, hP, hP'⟩⟩ := fastUInt32ToBufferLeft_emits u
    simp only [entry, List.nil_append] at hP hP'
    rw [hP]
    exact ⟨fun _ => by omega, fun _ p hp => by have := hP' p hp; omega⟩

end Gaia.Numbers
