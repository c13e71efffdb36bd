/-
The strict readers of `strings/numbers.cc` against the lenient ones.

`safe_strto32_base` and `safe_strto64_base` (`strings/numbers.cc:387`) accept a string only
when all of it, white space at the ends apart, is one numeral; the `ParseLeading*Value`
parsers (`:43`-`:176`) read the numeral at the front with the C library and ignore what
follows. The strict readers look at the piece from `str.begin()` to `str.end()`; the
lenient ones hand `str.data()` to `strtol`, which reads to the first NUL, so the two are
compared on pieces that a NUL follows in memory, as `ParseLeading` models them. On such a
piece, where the strict reader accepts, the lenient ones of the same base read the same
value: the signed ones return it, the unsigned ones its bits
(`parseLeading32_of_safeStrto32Base`, `parseLeading64_of_safeStrto64Base`). The one string
the strict reader accepts against the grammar, a bare `0x`, is no exception: `strtol` reads
its `0` and stops at the `x`.

What an accepted string is comes from the code's own reading, `codeParse`
(`codeParse_of_accept`). The step that matters is `strtoSubject_prefixValue`: the digits the
strict reader accepts after the sign, with blanks after them, are read by `strtol` in the
same base to the same magnitude.
-/
import Gaia.Strings.StrtolGrammar
import Gaia.Strings.ParseLeading

set_option autoImplicit false

namespace Gaia.Numbers

open Ascii

/-! ## Bytes `strtol` cannot take for a digit -/

theorem kAsciiToInt_of_isSpace {c : UInt8} (h : isSpace c = true) : kAsciiToInt c = 36 := by
  simp only [isSpace, Bool.or_eq_true, beq_iff_eq, Bool.and_eq_true, decide_eq_true_eq] at h
  rw [kAsciiToInt_eq, digitValue, if_neg (by omega), if_neg (by omega), if_neg (by omega)]

/-- A byte that is a digit in some base is no blank and no sign, so `strtol`'s numeral
starts there. -/
theorem lead_of_kAsciiToInt {c : UInt8} (h : kAsciiToInt c < 36) :
    isSpace c = false ∧ c ≠ charByte '-' ∧ c ≠ charByte '+' := by
  refine ⟨Bool.eq_false_iff.2 fun hs => by rw [kAsciiToInt_of_isSpace hs] at h; omega, ?_, ?_⟩ <;>
    rintro rfl <;> revert h <;> decide

theorem ne_x_of_hex_or_blank {c : UInt8} (h : kAsciiToInt c < 16 ∨ isSpace c = true) :
    c ≠ charByte 'x' ∧ c ≠ charByte 'X' := by
  constructor <;> rintro rfl <;> revert h <;> decide

/-- Blanks after a run of digits: `strtol`'s loop reads the run and stops at the blanks. -/
theorem run_blanks {b : Nat} (hb : b ≤ 36) {D : Bytes} (hD : ∀ c ∈ D, kAsciiToInt c < b)
    {ws : Bytes} (hws : ∀ c ∈ ws, isSpace c = true) :
    ((D ++ ws).takeWhile fun c => kAsciiToInt c < b) = D ∧
      ((D ++ ws).dropWhile fun c => kAsciiToInt c < b) = ws :=
  run_append hD fun c hc => by
    rw [kAsciiToInt_of_isSpace (hws c (List.mem_of_mem_head? hc))]; exact hb

/-! ## `strtol` on what the strict reader accepts -/

theorem strtoSubject_dropWhile (s : Bytes) (base : Nat) :
    strtoSubject (s.dropWhile isSpace) base = strtoSubject s base := by
  unfold strtoSubject; rw [List.dropWhile_idempotent]

/-- A `+` in front of a numeral: `strtol` reads it and goes on as without it. -/
theorem strtoSubject_plus {c : UInt8}
    (hc : isSpace c = false ∧ c ≠ charByte '-' ∧ c ≠ charByte '+') (r : Bytes) (base : Nat) :
    strtoSubject (charByte '+' :: c :: r) base = strtoSubject (c :: r) base := by
  have hsp : (c :: r).dropWhile isSpace = c :: r := List.dropWhile_cons_of_neg (by simp [hc.1])
  simp only [strtoSubject, hsp, if_neg hc.2.1, if_neg hc.2.2]
  rw [List.dropWhile_cons_of_neg (by decide)]
  simp only [if_neg (by decide : charByte '+' ≠ charByte '-'), if_true]

theorem digitsValue_some {ds : Bytes} {b : Int} {n : Nat} (h : digitsValue (ds, b) = some n) :
    (∀ c ∈ ds, kAsciiToInt c < b.toNat) ∧ numeral b.toNat ds = n := by
  simp only [digitsValue] at h; split_ifs at h with hD
  exact ⟨hD, Option.some.inj h⟩

theorem dropWhile_zero (r : Bytes) : (48 :: r).dropWhile isSpace = 48 :: r :=
  List.dropWhile_cons_of_neg (by decide)

theorem zero_not_sign : (48 : UInt8) ≠ charByte '-' ∧ (48 : UInt8) ≠ charByte '+' ∧
    charByte '0' = 48 := by decide

/-- A bare `0x` in base 0 or 16: `strtol` reads the `0` and stops at the `x`. -/
theorem strtoSubject_bare_hex {base : Nat} (hb : base = 0 ∨ base = 16) {x : UInt8}
    (hx : x = 120 ∨ x = 88) {ws : Bytes} (hws : ∀ c ∈ ws, isSpace c = true) :
    strtoSubject (48 :: x :: ws) base = some (false, 0, x :: ws) := by
  have hx33 : kAsciiToInt x = 33 := by rcases hx with rfl | rfl <;> decide
  have hnone : hexPrefix (48 :: x :: ws) = none := by
    rcases ws with _ | ⟨w, ws⟩
    · rfl
    · simp only [hexPrefix, kAsciiToInt_of_isSpace (hws w (List.mem_cons_self _ _))]
      exact if_neg fun h => absurd h.2.2 (by decide)
  have hrun : ∀ b, 1 ≤ b → b ≤ 33 → ((48 :: x :: ws).takeWhile fun c => kAsciiToInt c < b)
      = [48] ∧ ((48 :: x :: ws).dropWhile fun c => kAsciiToInt c < b) = x :: ws :=
    fun b h1 h33 => run_append (D := [48]) (fun c hc => by
        rw [List.mem_singleton.1 hc]; exact Nat.lt_of_lt_of_le (by decide) h1)
      fun c hc => by
        rw [List.head?_cons, Option.mem_def, Option.some.injEq] at hc; rw [← hc, hx33]; exact h33
  have h48 : numeral 8 [48] = 0 ∧ numeral 16 [48] = 0 := by decide
  have h0 := zero_not_sign
  rcases hb with rfl | rfl
  · simp only [strtoSubject, dropWhile_zero, if_neg h0.1, if_neg h0.2.1, if_true, hnone,
      List.head?_cons, h0.2.2, (hrun 8 (by decide) (by decide)).1,
      (hrun 8 (by decide) (by decide)).2, h48.1]
    rfl
  · simp only [strtoSubject, dropWhile_zero, if_neg h0.1, if_neg h0.2.1, hnone, Option.getD_none,
      if_neg (show (16 : Nat) ≠ 0 by decide), if_true, (hrun 16 (by decide) (by decide)).1,
      (hrun 16 (by decide) (by decide)).2, h48.2]
    rfl

/-- A `0x` prefix and hex digits in base 0 or 16: `strtol` reads the digits. -/
theorem strtoSubject_hex_digits {base : Nat} (hb : base = 0 ∨ base = 16) {x : UInt8}
    (hx : x = 120 ∨ x = 88) {D : Bytes} (hne : D ≠ []) (hD : ∀ c ∈ D, kAsciiToInt c < 16)
    {ws : Bytes} (hws : ∀ c ∈ ws, isSpace c = true) :
    strtoSubject (48 :: x :: (D ++ ws)) base = some (false, numeral 16 D, ws) := by
  obtain ⟨d, D', rfl⟩ := List.exists_cons_of_ne_nil hne
  have hsome : hexPrefix (48 :: x :: (d :: D' ++ ws)) = some (d :: D' ++ ws) := by
    simp only [List.cons_append, hexPrefix]
    exact if_pos ⟨rfl, hx, hD d (List.mem_cons_self _ _)⟩
  have hrun := run_blanks (b := 16) (by decide) hD hws
  have h0 := zero_not_sign
  rcases hb with rfl | rfl
  · simp only [strtoSubject, dropWhile_zero, if_neg h0.1, if_neg h0.2.1, if_true, hsome,
      hrun.1, hrun.2]
    rfl
  · simp only [strtoSubject, dropWhile_zero, if_neg h0.1, if_neg h0.2.1, hsome, Option.getD_some,
      if_neg (show (16 : Nat) ≠ 0 by decide), if_true, hrun.1, hrun.2]
    rfl

/-- A `0x` prefix in base 0 or 16, bare or with hex digits: `strtol` reads the digits' value. -/
theorem strtoSubject_hex {base : Nat} (hb : base = 0 ∨ base = 16) {x : UInt8}
    (hx : x = 120 ∨ x = 88) {D : Bytes} (hD : ∀ c ∈ D, kAsciiToInt c < 16)
    {ws : Bytes} (hws : ∀ c ∈ ws, isSpace c = true) :
    ∃ rest, strtoSubject (48 :: x :: (D ++ ws)) base = some (false, numeral 16 D, rest) := by
  rcases D with _ | ⟨d, D⟩
  · exact ⟨_, strtoSubject_bare_hex hb hx hws⟩
  · exact ⟨_, strtoSubject_hex_digits hb hx (List.cons_ne_nil _ _) hD hws⟩

/-- Digits of a base other than 0, then blanks: `strtol` reads the digits. In base 16 there
is no prefix to skip: the second byte is a digit or a blank, not an `x`. -/
theorem strtoSubject_run {base : Nat} (h0 : base ≠ 0) (hb : base ≤ 36) {D : Bytes}
    (hne : D ≠ []) (hD : ∀ c ∈ D, kAsciiToInt c < base) {ws : Bytes}
    (hws : ∀ c ∈ ws, isSpace c = true) :
    strtoSubject (D ++ ws) base = some (false, numeral base D, ws) := by
  obtain ⟨d, D', rfl⟩ := List.exists_cons_of_ne_nil hne
  have hd := lead_of_kAsciiToInt (Nat.lt_of_lt_of_le (hD d (List.mem_cons_self _ _)) hb)
  have hsp : (d :: (D' ++ ws)).dropWhile isSpace = d :: (D' ++ ws) :=
    List.dropWhile_cons_of_neg (by simp [hd.1])
  have hrun := run_blanks hb hD hws
  simp only [List.cons_append] at hrun
  rcases eq_or_ne base 16 with rfl | h16
  · have hhex : hexPrefix (d :: (D' ++ ws)) = none :=
      hexPrefix_eq_none fun x hx => ne_x_of_hex_or_blank <| by
        rcases List.mem_append.1 (List.mem_of_mem_head? hx) with hx | hx
        · exact .inl (hD x (List.mem_cons_of_mem _ hx))
        · exact .inr (hws x hx)
    simp only [strtoSubject, List.cons_append, hsp, if_neg hd.2.1, if_neg hd.2.2, if_neg h0,
      if_true, hhex, Option.getD_none, hrun.1, hrun.2]
    rfl
  · simp only [strtoSubject, List.cons_append, hsp, if_neg hd.2.1, if_neg hd.2.2, if_neg h0,
      if_neg h16, hrun.1, hrun.2]
    rfl

theorem head_lt_of_digits {b : Nat} (hb : b ≤ 36) {u : Bytes} (hD : ∀ c ∈ u, kAsciiToInt c < b) :
    ∀ c ∈ u.head?, kAsciiToInt c < 36 :=
  fun c hc => Nat.lt_of_lt_of_le (hD c (List.mem_of_mem_head? hc)) hb

/-- **What the strict reader accepts after the sign, `strtol` reads.** A nonempty string that
the code's prefix parse and digit loops read as `n` starts with a digit, and with blanks
after it `strtol` reads it in the same base as `n`. -/
theorem strtoSubject_prefixValue {base : Int} {u : Bytes} (hu : u ≠ []) {n : Nat}
    (h : prefixValue base u = some n) {ws : Bytes} (hws : ∀ c ∈ ws, isSpace c = true) :
    (∀ c ∈ u.head?, kAsciiToInt c < 36) ∧
      ∃ rest, strtoSubject (u ++ ws) base.toNat = some (false, n, rest) := by
  have hz : ∀ r : Bytes, ∀ c ∈ (48 :: r).head?, kAsciiToInt c < 36 := fun r c hc => by
    rw [List.head?_cons, Option.mem_def, Option.some.injEq] at hc; subst hc; decide
  have hblank : ∀ c ∈ ws.head?, 36 = kAsciiToInt c := fun c hc =>
    (kAsciiToInt_of_isSpace (hws c (List.mem_of_mem_head? hc))).symm
  have hoct : ∀ c ∈ ws.head?, 8 ≤ kAsciiToInt c ∧ c ≠ charByte 'x' ∧ c ≠ charByte 'X' :=
    fun c hc => ⟨hblank c hc ▸ by decide,
      ne_x_of_hex_or_blank (.inr (hws c (List.mem_of_mem_head? hc)))⟩
  unfold prefixValue basePrefix at h
  by_cases h0 : base = 0
  · rw [if_pos h0] at h
    subst h0
    split at h
    · rename_i x ds
      split_ifs at h with hx
      · -- `0x`: hex
        obtain ⟨hD, rfl⟩ := digitsValue_some h
        exact ⟨hz _, strtoSubject_hex (.inl rfl) hx hD hws⟩
      · -- `0` and more digits: octal
        obtain ⟨hD, rfl⟩ := digitsValue_some h
        exact ⟨hz _, ws, strtoSubject_zero_octal (k := 1) le_rfl hD ws hoct⟩
    · -- `0` alone: octal `0`
      cases h
      exact ⟨hz _, ws, strtoSubject_zero_octal (k := 1) le_rfl (D := []) (by simp) ws hoct⟩
    · -- anything else: decimal
      rename_i hx hzero
      obtain ⟨hD, rfl⟩ := digitsValue_some h
      have hhead : ∀ c ∈ u.head?, c ≠ charByte '0' := by
        rintro c hc rfl
        obtain ⟨r, rfl⟩ : ∃ r, u = 48 :: r := ⟨u.tail, by
          rcases u with _ | ⟨c, r⟩
          · exact (hu rfl).elim
          · rw [List.head?_cons, Option.mem_def, Option.some.injEq] at hc; rw [hc]; rfl⟩
        rcases r with _ | ⟨x, ds⟩
        · exact hzero rfl
        · exact hx x ds rfl
      exact ⟨head_lt_of_digits (by decide) hD, ws, strtoSubject_zero_decimal hu hhead
        (fun c hc => (kAsciiToInt_lt_ten_iff c).1 (hD c hc)) ws fun c hc => hblank c hc ▸ by decide⟩
  by_cases h16 : base = 16
  · rw [if_neg h0, if_pos h16] at h
    subst h16
    split at h
    · rename_i x ds
      split_ifs at h with hx
      · obtain ⟨hD, rfl⟩ := digitsValue_some h
        exact ⟨hz _, strtoSubject_hex (.inr rfl) hx hD hws⟩
      · obtain ⟨hD, rfl⟩ := digitsValue_some h
        exact ⟨hz _, ws, strtoSubject_run (by decide) (by decide) hu hD hws⟩
    · obtain ⟨hD, rfl⟩ := digitsValue_some h
      exact ⟨head_lt_of_digits (by decide) hD, ws,
        strtoSubject_run (by decide) (by decide) hu hD hws⟩
  rw [if_neg h0, if_neg h16] at h
  by_cases hb : 2 ≤ base ∧ base ≤ 36
  · rw [if_pos hb] at h
    obtain ⟨hD, rfl⟩ := digitsValue_some h
    exact ⟨head_lt_of_digits (by omega) hD, ws, strtoSubject_run (by omega) (by omega) hu hD hws⟩
  · rw [if_neg hb] at h; cases h

theorem rdropWhile_append_rtakeWhile (p : UInt8 → Bool) (l : Bytes) :
    l.rdropWhile p ++ l.rtakeWhile p = l := by
  rw [List.rdropWhile, List.rtakeWhile, ← List.reverse_append, List.takeWhile_append_dropWhile,
    List.reverse_reverse]

/-- **What the strict reader reads, `strtol` reads.** Wherever the code reads a string as `x`,
`strtol` in the same base converts a numeral whose signed value is `x`. -/
theorem strtoSubject_of_codeParse {s : Bytes} {base x : Int} (h : codeParse s base = some x) :
    ∃ negative m rest, strtoSubject s base.toNat = some (negative, m, rest) ∧
      x = if negative then -(m : Int) else m := by
  rw [← strtoSubject_dropWhile, ← rdropWhile_append_rtakeWhile isSpace (s.dropWhile isSpace)]
  have hws : ∀ c ∈ (s.dropWhile isSpace).rtakeWhile isSpace, isSpace c = true :=
    fun c hc => List.mem_rtakeWhile_imp hc
  rw [codeParse_eq] at h
  generalize (s.dropWhile isSpace).rtakeWhile isSpace = ws at hws ⊢
  generalize (s.dropWhile isSpace).rdropWhile isSpace = t at h ⊢
  rcases t with _ | ⟨c, rest⟩
  · cases h
  simp only [] at h
  by_cases hs : c = 45 ∨ c = 43
  · have hr : rest ≠ [] := by rintro rfl; simp only [hs, and_self, if_true] at h; cases h
    rw [if_neg (fun h => hr h.2), if_pos hs] at h
    obtain ⟨n, hn, rfl⟩ := Option.map_eq_some'.1 h
    obtain ⟨hhead, r, hread⟩ := strtoSubject_prefixValue hr hn hws
    obtain ⟨d, ds, rfl⟩ := List.exists_cons_of_ne_nil hr
    have hd := lead_of_kAsciiToInt (hhead d rfl)
    rcases hs with rfl | rfl
    · refine ⟨true, n, r, ?_, rfl⟩
      rw [List.cons_append, ← List.singleton_append]
      exact (strtoSubject_sign true hd (ds ++ ws) base.toNat).trans
        (by rw [← List.cons_append, hread]; rfl)
    · exact ⟨false, n, r, (strtoSubject_plus hd (ds ++ ws) base.toNat).trans hread, rfl⟩
  · rw [if_neg (fun h => hs h.1), if_neg hs] at h
    obtain ⟨n, hn, rfl⟩ := Option.map_eq_some'.1 h
    obtain ⟨-, r, hread⟩ := strtoSubject_prefixValue (List.cons_ne_nil c rest) hn hws
    exact ⟨false, n, r, hread, by rw [if_neg fun h => hs (.inl h)]; rfl⟩

/-- What an accepting run of `safe_int_internal` tells about the string: the code's reading is
the value stored, and it fits the type. -/
theorem codeParse_of_accept {T : IntType} {s : Bytes} {base v x : Int}
    (h : safeIntInternal T s base v = some (true, x)) :
    codeParse s base = some x ∧ T.min ≤ x ∧ x ≤ T.max := by
  rw [safeIntInternal_eq_verdict, Option.some.injEq] at h
  rcases hc : codeParse s base with _ | y
  · rw [hc, verdict] at h; cases h
  · rw [hc, verdict] at h
    split_ifs at h with hy
    · cases h; exact ⟨rfl, hy⟩
    · exact absurd (congrArg Prod.fst h) Bool.false_ne_true

/-- What `strtol` makes of a string that `safe_int_internal` accepts as `x`: a numeral whose
signed value is `x`, and `x` fits the type. -/
theorem strtoSubject_of_accept {T : IntType} {s : Bytes} {base v x : Int}
    (h : safeIntInternal T s base v = some (true, x)) :
    ∃ negative m rest, strtoSubject s base.toNat = some (negative, m, rest) ∧
      x = (if negative then -(m : Int) else m) ∧ T.min ≤ x ∧ x ≤ T.max := by
  obtain ⟨hc, hr⟩ := codeParse_of_accept h
  obtain ⟨negative, m, rest, hs, hx⟩ := strtoSubject_of_codeParse hc
  exact ⟨negative, m, rest, hs, hx, hr⟩

/-! ## The two kinds of reader agree -/

/-- **Where `safe_strto32_base` accepts, the 32-bit leading parsers agree with it.** For every
piece that a NUL follows, `*v`, default and data model: when `safe_strto32_base` accepts the string in base 0 as
`x`, `ParseLeadingInt32Value` returns `x` and `ParseLeadingUInt32Value` its 32 bits, and in
base 10 so do `ParseLeadingDec32Value` and `ParseLeadingUDec32Value`. -/
theorem parseLeading32_of_safeStrto32Base (dm : DataModel) (s : Bytes) (v d : Int)
    (du : BitVec 32) :
    (∀ x, safeStrto32Base s v 0 = some (true, x) →
      parseLeadingInt32Value dm s d = x ∧ parseLeadingUInt32Value dm s du = BitVec.ofInt 32 x) ∧
    (∀ x, safeStrto32Base s v 10 = some (true, x) →
      parseLeadingDec32Value dm s d = x ∧ parseLeadingUDec32Value dm s du = BitVec.ofInt 32 x) := by
  have read : ∀ {b : Nat} {x : Int}, safeStrto32Base s v b = some (true, x) →
      ¬s.isEmpty = true ∧ parseLeadingSigned dm b s d = x ∧
        parseLeadingUnsigned dm b s du = BitVec.ofInt 32 x := by
    intro b x h
    obtain ⟨negative, m, rest, hs, hx, h1, h2⟩ := strtoSubject_of_accept h
    rw [Int.toNat_ofNat] at hs
    obtain ⟨hsig, hun, -, -⟩ := parsers_of_strtoSubject_value hs hx dm d du 0
    have hr : -2 ^ 31 ≤ x ∧ x ≤ 2 ^ 31 - 1 := ⟨h1, h2⟩
    have hm : m ≤ uint32Max := by
      rw [uint32Max]; cases negative <;> simp only [Bool.false_eq_true, if_false, if_true] at hx <;>
        omega
    exact ⟨by simpa using ne_nil_of_strtoSubject hs, by rw [hsig]; omega, hun hm⟩
  refine ⟨fun x h => ?_, fun x h => ⟨(read (b := 10) h).2.1, (read (b := 10) h).2.2⟩⟩
  obtain ⟨hne, hsig, hun⟩ := read (b := 0) h
  exact ⟨by rw [parseLeadingInt32Value, if_neg hne]; exact hsig,
    by rw [parseLeadingUInt32Value, if_neg hne]; exact hun⟩

/-- `" -0x1F "` in base 0. -/
theorem parseLeading32_minus_hex :
    safeStrto32Base (bytes " -0x1F ") 0 0 = some (true, -31) ∧
      parseLeadingInt32Value .lp64 (bytes " -0x1F ") 0 = -31 ∧
      parseLeadingUInt32Value .lp64 (bytes " -0x1F ") 0 = BitVec.ofInt 32 (-31) :=
  have h : safeStrto32Base (bytes " -0x1F ") 0 0 = some (true, -31) := by decide
  ⟨h, (parseLeading32_of_safeStrto32Base .lp64 _ 0 0 0).1 _ h⟩

/-- **Where `safe_strto64_base` accepts, the 64-bit leading parsers agree with it.** For every
piece that a NUL follows, `*v` and default: when `safe_strto64_base` accepts the string as `x`,
`ParseLeadingInt64Value` (base 0) and `ParseLeadingDec64Value` (base 10) return `x`, and
`ParseLeadingUInt64Value`, `ParseLeadingUDec64Value` and `ParseLeadingHex64Value` (base 16)
its 64 bits. A bare `0x` in base 16 is among the strings: both read it as `0`. -/
theorem parseLeading64_of_safeStrto64Base (s : Bytes) (v d : Int) (d64 : BitVec 64) :
    (∀ x, safeStrto64Base s v 0 = some (true, x) →
      parseLeadingInt64Value s d = x ∧ parseLeadingUInt64Value s d64 = BitVec.ofInt 64 x) ∧
    (∀ x, safeStrto64Base s v 10 = some (true, x) →
      parseLeadingDec64Value s d = x ∧ parseLeadingUDec64Value s d64 = BitVec.ofInt 64 x) ∧
    (∀ x, safeStrto64Base s v 16 = some (true, x) →
      parseLeadingHex64Value s d64 = BitVec.ofInt 64 x) := by
  have read : ∀ {b : Nat} {x : Int}, safeStrto64Base s v b = some (true, x) →
      parseLeadingSigned64 b s d = x ∧ parseLeadingUnsigned64 b s d64 = BitVec.ofInt 64 x := by
    intro b x h
    obtain ⟨negative, m, rest, hs, hx, h1, h2⟩ := strtoSubject_of_accept h
    rw [Int.toNat_ofNat] at hs
    obtain ⟨-, -, hsig, hun⟩ := parsers_of_strtoSubject_value hs hx .lp64 d 0 d64
    have hr : -2 ^ 63 ≤ x ∧ x ≤ 2 ^ 63 - 1 := ⟨h1, h2⟩
    have hm : m ≤ 2 ^ 64 - 1 := by
      cases negative <;> simp only [Bool.false_eq_true, if_false, if_true] at hx <;> omega
    exact ⟨by rw [hsig]; omega, hun hm⟩
  exact ⟨fun x h => read (b := 0) h, fun x h => read (b := 10) h, fun x h => (read (b := 16) h).2⟩

/-- A bare `0x` in base 16. -/
theorem parseLeadingHex64_bare_prefix :
    safeStrto64Base (bytes "0x") 7 16 = some (true, 0) ∧
      parseLeadingHex64Value (bytes "0x") 5 = BitVec.ofInt 64 0 :=
  have h : safeStrto64Base (bytes "0x") 7 16 = some (true, 0) := by decide
  ⟨h, (parseLeading64_of_safeStrto64Base _ 7 0 5).2.2 _ h⟩

end Gaia.Numbers
