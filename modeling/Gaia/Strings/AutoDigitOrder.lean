/-
`AutoDigitLessThan` is a strict weak order, and `StrictAutoDigitLessThan` a strict total
one (`strings/numbers.cc:674`-`681`), so both are fit for `std::sort`.

Everything goes through `autoDigitStrCmp_tokens`, the loop as a comparison of tokens. A
token comparison is a comparison by a key: the token's `char` class (`'0'` for every digit
run, which is how a run meets a byte), then its value, then, in strict mode, its leading
zeroes the other way round (`tokenCmp_eq_key`). Batteries' instances make a keyed,
lexicographic combination of lawful comparators lawful, `lexCmp` keeps a lawful comparator
lawful (`instTransCmpLexCmp`), and the laws of the `int` result follow
(`autoDigitStrCmp_weak_order`).

What the order is for: numbers embedded in names after a common prefix sort by value
(`autoDigitStrCmp_decimal`).

Strict mode loses nothing: two digit runs with the same value and the same number of
leading zeroes are the same bytes (`run_eq_of_key_eq`), and the tokens of a string spell it
out (`tokens_flatten`), so a strict result of `0` means equal strings. On strings whose
numbers have no leading zeroes the two modes agree (`autoDigitStrCmp_strict_of_canonical`).
-/
import Gaia.Strings.AutoDigit
import Mathlib.Data.Prod.Lex

set_option autoImplicit false

namespace Gaia.Numbers

open Ascii Batteries

/-! ## Lexicographic extension of a lawful comparator -/

section Lex

variable {α : Type} {cmp : α → α → Ordering}

theorem lexCmp_swap [OrientedCmp cmp] :
    ∀ xs ys : List α, (lexCmp cmp xs ys).swap = lexCmp cmp ys xs
  | [], [] | [], _ :: _ | _ :: _, [] => rfl
  | x :: xs, y :: ys => by
    rw [lexCmp, lexCmp, Ordering.swap_then, OrientedCmp.symm, lexCmp_swap xs ys]

theorem lexCmp_le_trans [TransCmp cmp] :
    ∀ {xs ys zs : List α}, lexCmp cmp xs ys ≠ .gt → lexCmp cmp ys zs ≠ .gt →
      lexCmp cmp xs zs ≠ .gt
  | [], _, [] , _, _ | [], _, _ :: _, _, _ => by simp [lexCmp]
  | _ :: _, [], _, h, _ => absurd rfl h
  | _ :: _, _ :: _, [], _, h => absurd rfl h
  | x :: xs, y :: ys, z :: zs, h₁, h₂ => by
    simp only [lexCmp, ne_eq, Ordering.then_eq_gt, not_or, not_and] at h₁ h₂ ⊢
    refine ⟨TransCmp.le_trans h₁.1 h₂.1, fun hxz => ?_⟩
    match hxy : cmp x y with
    | .gt => exact absurd hxy h₁.1
    | .eq =>
      have hyz : cmp y z = .eq := (TransCmp.cmp_congr_left hxy).symm.trans hxz
      exact lexCmp_le_trans (h₁.2 hxy) (h₂.2 hyz)
    | .lt => exact absurd (TransCmp.lt_le_trans hxy h₂.1) (by rw [hxz]; decide)

instance [OrientedCmp cmp] : OrientedCmp (lexCmp cmp) where
  symm := lexCmp_swap

instance [TransCmp cmp] : TransCmp (lexCmp cmp) where
  le_trans := lexCmp_le_trans

/-- When only equal elements compare equal, only equal lists do. -/
theorem lexCmp_eq_iff (h : ∀ x y, cmp x y = .eq ↔ x = y) :
    ∀ xs ys : List α, lexCmp cmp xs ys = .eq ↔ xs = ys
  | [], [] => by simp [lexCmp]
  | [], _ :: _ | _ :: _, [] => by simp [lexCmp]
  | x :: xs, y :: ys => by
    rw [lexCmp, Ordering.then_eq_eq, h, lexCmp_eq_iff h xs ys, List.cons.injEq]

end Lex

/-! ## Tokens by key -/

/-- The `char` a token meets a byte with: the byte itself, `'0'` for any digit run. -/
def Token.charKey : Token → Int
  | .number .. => 48
  | .byte c _ => toChar c

/-- The value of a digit run; `0` for a byte. -/
def Token.valueKey : Token → Nat
  | .number r _ _ => numeral 10 r
  | .byte .. => 0

/-- The leading zeroes of a digit run when they count, that is in strict mode. -/
def Token.zeroKey (strict : Bool) : Token → Nat
  | .number r _ _ => if strict then leadingZeros r else 0
  | .byte .. => 0

/-- A digit run starts with a `char` in `'0'..'9'`. -/
theorem toChar_headD_mem {r : Bytes} (h1 : r ≠ []) (h2 : ∀ c ∈ r, isDigit c = true) :
    48 ≤ toChar (r.headD 0) ∧ toChar (r.headD 0) ≤ 57 := by
  obtain ⟨d, r, rfl⟩ := List.exists_cons_of_ne_nil h1
  exact (toChar_mem_digits_iff d).2 (h2 d (List.mem_cons_self _ _))

theorem toChar_not_mem {y : UInt8} (hy : isDigit y = false) : ¬(48 ≤ toChar y ∧ toChar y ≤ 57) := by
  rw [toChar_mem_digits_iff, hy]; decide

/-- **A token comparison is a comparison by key.** -/
theorem tokenCmp_eq_key (strict : Bool) :
    tokenCmp strict = compareLex (compareOn Token.charKey)
      (compareLex (compareOn Token.valueKey) (flip (compareOn (Token.zeroKey strict)))) := by
  funext t u
  cases t with
  | number r h1 h2 => cases u with
    | number r' _ _ =>
      cases strict <;> simp [tokenCmp, compareLex, compareOn, flip, Token.charKey,
        Token.valueKey, Token.zeroKey, compare_nat_eq, compare_int_eq, Ordering.then]
    | byte y hy =>
      have := toChar_headD_mem h1 h2
      have := toChar_not_mem hy
      simp only [tokenCmp, compareLex, compareOn, Token.charKey]
      rw [compare_int_eq, compare_int_eq]; split_ifs <;> first | rfl | omega
  | byte x hx => cases u with
    | number r h1 h2 =>
      have := toChar_headD_mem h1 h2
      have := toChar_not_mem hx
      simp only [tokenCmp, compareLex, compareOn, Token.charKey]
      rw [compare_int_eq, compare_int_eq]; split_ifs <;> first | rfl | omega
    | byte y _ =>
      simp only [tokenCmp, compareLex, compareOn, flip, Token.charKey, Token.valueKey,
        Token.zeroKey, compare_nat_eq, Nat.lt_irrefl, if_false, if_true]
      cases compare (toChar x) (toChar y) <;> rfl

instance (strict : Bool) : TransCmp (tokenCmp strict) := by
  rw [tokenCmp_eq_key]; infer_instance

/-! ## Strict mode tells strings apart -/

/-- Past its leading zeroes, a digit run is all digits still. -/
theorem takeWhile_rest {r : Bytes} (h : ∀ c ∈ r, isDigit c = true) :
    (r.dropWhile (· == zeroChar)).takeWhile isDigit = r.dropWhile (· == zeroChar) :=
  List.takeWhile_eq_self_iff.2 fun c hc => h c ((List.dropWhile_suffix _).subset hc)

theorem length_eq_leadingZeros_add (r : Bytes) :
    r.length = leadingZeros r + (r.dropWhile (· == zeroChar)).length := by
  rw [leadingZeros, ← List.length_append, List.takeWhile_append_dropWhile]

/-- Two digit runs of one value are as long once their leading zeroes are gone: the run
comparison of the code sees a length difference as a difference in value. -/
theorem rest_length_eq {r r' : Bytes} (h : ∀ c ∈ r, isDigit c = true)
    (h' : ∀ c ∈ r', isDigit c = true) (hv : numeral 10 r = numeral 10 r') :
    (r.dropWhile (· == zeroChar)).length = (r'.dropWhile (· == zeroChar)).length := by
  have hrun := compareRun_eq (noLeadingZero_run r) (noLeadingZero_run r')
  rw [← numeral_run, ← numeral_run, List.takeWhile_eq_self_iff.2 h,
    List.takeWhile_eq_self_iff.2 h', hv, compare_nat_eq, if_neg (Nat.lt_irrefl _), if_pos rfl,
    ofOrdering_eq, takeWhile_rest h, takeWhile_rest h'] at hrun
  split_ifs at hrun <;> omega

/-- Two digit runs with the same value and the same number of leading zeroes are the same
bytes. -/
theorem run_eq_of_key_eq {r r' : Bytes} (h : ∀ c ∈ r, isDigit c = true)
    (h' : ∀ c ∈ r', isDigit c = true) (hv : numeral 10 r = numeral 10 r')
    (hz : leadingZeros r = leadingZeros r') : r = r' := by
  have hlen : r.length = r'.length := by
    rw [length_eq_leadingZeros_add r, length_eq_leadingZeros_add r', hz,
      rest_length_eq h h' hv]
  rw [← pad_numeral h, ← pad_numeral h', hlen, hv]

/-- In strict mode only equal tokens compare equal. -/
theorem tokenCmp_true_eq_iff (t u : Token) : tokenCmp true t u = .eq ↔ t = u := by
  refine ⟨fun h => ?_, fun h => h ▸ OrientedCmp.cmp_refl⟩
  rw [tokenCmp_eq_key] at h
  simp only [compareLex, compareOn, flip, Ordering.then_eq_eq, compare_eq_iff_eq] at h
  obtain ⟨hc, hv, hz⟩ := h
  cases t with
  | number r _ hr => cases u with
    | number r' _ hr' =>
      simp only [Token.valueKey, Token.zeroKey, if_true] at hv hz
      rw [Token.number.injEq]; exact run_eq_of_key_eq hr hr' hv hz.symm
    | byte y hy => exact (toChar_not_mem hy (by simp only [Token.charKey] at hc; omega)).elim
  | byte x hx => cases u with
    | number r _ _ => exact (toChar_not_mem hx (by simp only [Token.charKey] at hc; omega)).elim
    | byte y _ => rw [Token.byte.injEq]; exact toChar_injective hc

/-- The tokens of a string spell it out. -/
theorem tokens_flatten : ∀ a : Bytes, ((tokenize a).map Token.bytes).flatten = a
  | [] => by rw [tokenize.eq_1]; rfl
  | c :: cs => by
    rw [tokenize.eq_2]
    split
    · rw [List.map_cons, List.flatten_cons, tokens_flatten (cs.dropWhile isDigit), Token.bytes,
        List.cons_append, List.takeWhile_append_dropWhile]
    · rw [List.map_cons, List.flatten_cons, tokens_flatten cs]; rfl
termination_by a => a.length
decreasing_by
  all_goals first | exact Nat.lt_succ_of_le ((List.dropWhile_suffix _).length_le) | simp

theorem tokenize_injective : Function.Injective tokenize := fun a b h => by
  rw [← tokens_flatten a, ← tokens_flatten b, h]

/-! ## The laws of the result -/

theorem ofOrdering_swap (o : Ordering) : ofOrdering o.swap = -ofOrdering o := by
  cases o <;> rfl

theorem ofOrdering_le_zero_iff (o : Ordering) : ofOrdering o ≤ 0 ↔ o ≠ .gt := by
  cases o <;> decide

theorem ofOrdering_eq_zero_iff (o : Ordering) : ofOrdering o = 0 ↔ o = .eq := by
  cases o <;> decide

theorem ofOrdering_lt_zero_iff (o : Ordering) : ofOrdering o < 0 ↔ o = .lt := by
  cases o <;> decide

theorem ofOrdering_mem (o : Ordering) : ofOrdering o = -1 ∨ ofOrdering o = 0 ∨ ofOrdering o = 1 := by
  cases o <;> simp

/-- **The laws of a three-way comparison**, for both values of `strict` and every three
byte strings: the result is a sign, it flips with the arguments, a string is equal to
itself, "not after" is transitive, and in strict mode only equal strings compare equal. -/
theorem autoDigitStrCmp_weak_order (strict : Bool) (a b c : Bytes) :
    (autoDigitStrCmp a b strict = -1 ∨ autoDigitStrCmp a b strict = 0 ∨
      autoDigitStrCmp a b strict = 1) ∧
    autoDigitStrCmp a b strict = -autoDigitStrCmp b a strict ∧
    autoDigitStrCmp a a strict = 0 ∧
    (autoDigitStrCmp a b strict ≤ 0 → autoDigitStrCmp b c strict ≤ 0 →
      autoDigitStrCmp a c strict ≤ 0) ∧
    (autoDigitStrCmp a b true = 0 ↔ a = b) := by
  simp only [autoDigitStrCmp_tokens]
  refine ⟨ofOrdering_mem _, ?_, ?_, ?_, ?_⟩
  · rw [← ofOrdering_swap, lexCmp_swap]
  · exact (ofOrdering_eq_zero_iff _).2 OrientedCmp.cmp_refl
  · simp only [ofOrdering_le_zero_iff]; exact TransCmp.le_trans
  · rw [ofOrdering_eq_zero_iff, lexCmp_eq_iff tokenCmp_true_eq_iff, tokenize_injective.eq_iff]

/-! ## Sorting

`std::sort` asks its comparator for a strict weak order; these are Mathlib's statements of
that, for `AutoDigitLessThan`, and of a strict total order for `StrictAutoDigitLessThan`. -/

section Sorting

variable {α β : Type} {cmp : α → α → Ordering} [TransCmp cmp]

/-- Two elements neither of which is below the other compare equal. -/
theorem incomparable_iff {x y : α} : (¬cmp x y = .lt ∧ ¬cmp y x = .lt) ↔ cmp x y = .eq := by
  rw [← @OrientedCmp.cmp_eq_gt _ _ x y]; cases cmp x y <;> decide

/-- "Below" by a lawful comparator, after any map, is a strict weak order. -/
theorem isStrictWeakOrder_comap (f : β → α) :
    IsStrictWeakOrder β fun a b => cmp (f a) (f b) = .lt where
  irrefl _ h := absurd (OrientedCmp.cmp_refl.symm.trans h) (by decide)
  trans _ _ _ := TransCmp.lt_trans
  incomp_trans a b c hab hbc := by
    rw [incomparable_iff] at hab hbc ⊢
    exact (TransCmp.cmp_congr_left hab).trans hbc

end Sorting

theorem lessThan_eq (strict : Bool) (a b : Bytes) :
    (autoDigitStrCmp a b strict < 0) = (lexCmp (tokenCmp strict) (tokenize a) (tokenize b) = .lt) := by
  rw [autoDigitStrCmp_tokens, ofOrdering_lt_zero_iff]

/-- **`AutoDigitLessThan` is a strict weak order.** -/
theorem autoDigitLessThan_isStrictWeakOrder :
    IsStrictWeakOrder Bytes fun a b => autoDigitLessThan a b = true := by
  simp only [autoDigitLessThan, decide_eq_true_eq, lessThan_eq]
  exact isStrictWeakOrder_comap tokenize

/-- **`StrictAutoDigitLessThan` is a strict total order.** -/
theorem strictAutoDigitLessThan_isStrictTotalOrder :
    IsStrictTotalOrder Bytes fun a b => strictAutoDigitLessThan a b = true := by
  simp only [strictAutoDigitLessThan, decide_eq_true_eq, lessThan_eq]
  have := (@isStrictWeakOrder_comap _ _ (lexCmp (tokenCmp true)) _ tokenize).toIsStrictOrder
  refine { trichotomous := fun a b => ?_ }
  match hab : lexCmp (tokenCmp true) (tokenize a) (tokenize b) with
  | .lt => exact .inl rfl
  | .eq => exact .inr (.inl (tokenize_injective ((lexCmp_eq_iff tokenCmp_true_eq_iff _ _).1 hab)))
  | .gt => exact .inr (.inr (OrientedCmp.cmp_eq_gt.1 hab))

/-! ## Numbers in names -/

theorem Token.number_congr {r r' : Bytes} (h : r = r') {h₁ : r ≠ []}
    {h₂ : ∀ c ∈ r, isDigit c = true} {h₁' : r' ≠ []} {h₂' : ∀ c ∈ r', isDigit c = true} :
    Token.number r h₁ h₂ = Token.number r' h₁' h₂' := by
  subst h; rfl

/-- A list's last element is its tail's when the tail has one. -/
theorem getLast?_cons_of_ne_nil {c : UInt8} {cs : Bytes} (h : cs ≠ []) :
    (c :: cs).getLast? = cs.getLast? := by
  obtain ⟨d, ds, rfl⟩ := List.exists_cons_of_ne_nil h
  exact List.getLast?_cons_cons

/-- Past a byte that is no digit, a list's tail after a run of digits keeps its last byte. -/
theorem getLast?_dropWhile {l : Bytes} (h : l.dropWhile isDigit ≠ []) :
    (l.dropWhile isDigit).getLast? = l.getLast? := by
  conv_rhs => rw [← List.takeWhile_append_dropWhile isDigit l]
  rw [List.getLast?_append_of_ne_nil _ h]

/-- A string that ends in a byte that is no digit ends a token there. -/
theorem tokenize_append (s : Bytes) : ∀ p : Bytes, (∀ c ∈ p.getLast?, isDigit c = false) →
    tokenize (p ++ s) = tokenize p ++ tokenize s
  | [], _ => by rw [List.nil_append, tokenize.eq_1, List.nil_append]
  | c :: cs, hp => by
    rw [List.cons_append, tokenize.eq_2, tokenize.eq_2]
    by_cases hcs : cs = []
    · subst hcs
      have hc : isDigit c = false := hp c rfl
      rw [dif_neg (by simp [hc]), dif_neg (by simp [hc]), List.nil_append, tokenize.eq_1]; rfl
    have hlast : ∀ x ∈ cs.getLast?, isDigit x = false := fun x hx =>
      hp x (by rwa [getLast?_cons_of_ne_nil hcs])
    by_cases hc : isDigit c = true
    · have hdrop : cs.dropWhile isDigit ≠ [] := by
        intro h
        obtain ⟨x, hx⟩ := Option.isSome_iff_exists.1 (List.getLast?_isSome.2 hcs)
        have := (List.dropWhile_eq_nil_iff.1 h) x (List.mem_of_getLast?_eq_some hx)
        simp [hlast x hx] at this
      have hlen := congrArg List.length (List.takeWhile_append_dropWhile isDigit cs)
      rw [List.length_append] at hlen
      have hd := List.length_pos.2 hdrop
      have ih := tokenize_append s (cs.dropWhile isDigit) (by rwa [getLast?_dropWhile hdrop])
      have ht : (cs ++ s).takeWhile isDigit = cs.takeWhile isDigit := by
        rw [List.takeWhile_append, if_neg (by omega)]
      have hdr : (cs ++ s).dropWhile isDigit = cs.dropWhile isDigit ++ s := by
        rw [List.dropWhile_append, if_neg (by simpa using hdrop)]
      rw [dif_pos hc, dif_pos hc, List.cons_append, hdr, ih]
      exact congrArg₂ _ (Token.number_congr (by rw [ht])) rfl
    · rw [dif_neg hc, dif_neg hc, tokenize_append s cs hlast, List.cons_append]
termination_by p => p.length
decreasing_by
  all_goals first | exact Nat.lt_succ_of_le ((List.dropWhile_suffix _).length_le) | simp

/-- A decimal numeral followed by a byte that is no digit (or the end) is one token. -/
theorem tokenize_decimal_append (n : Nat) {q : Bytes} (hq : ∀ c ∈ q.head?, isDigit c = false) :
    tokenize (decimal n ++ q) =
      .number (decimal n) (decimal_ne_nil n) (fun _ hc => isDigit_of_mem_decimal hc) :: tokenize q := by
  obtain ⟨d, ds, hd⟩ := List.exists_cons_of_ne_nil (decimal_ne_nil n)
  have hdig : ∀ c ∈ decimal n, isDigit c = true := fun _ hc => isDigit_of_mem_decimal hc
  have hds : ∀ c ∈ ds, isDigit c = true := fun c hc => hdig c (by rw [hd]; exact List.mem_cons_of_mem d hc)
  have hq' : q.takeWhile isDigit = [] ∧ q.dropWhile isDigit = q := by
    cases q with
    | nil => exact ⟨rfl, rfl⟩
    | cons c cs =>
      have hc : isDigit c = false := hq c rfl
      exact ⟨List.takeWhile_cons_of_neg (by simp [hc]), List.dropWhile_cons_of_neg (by simp [hc])⟩
  have e : decimal n ++ q = d :: (ds ++ q) := by rw [hd, List.cons_append]
  rw [e, tokenize.eq_2, dif_pos (hdig d (by rw [hd]; exact List.mem_cons_self d ds)),
    List.dropWhile_append_of_pos hds, hq'.2]
  exact congrArg₂ _ (Token.number_congr (by rw [List.takeWhile_append_of_pos hds, hq'.1,
    List.append_nil, hd])) rfl

/-- A common prefix does not decide a lexicographic comparison. -/
theorem lexCmp_append_left {α : Type} {cmp : α → α → Ordering} [OrientedCmp cmp] :
    ∀ xs ys zs : List α, lexCmp cmp (xs ++ ys) (xs ++ zs) = lexCmp cmp ys zs
  | [], _, _ => rfl
  | x :: xs, ys, zs => by
    have hx : cmp x x = .eq := OrientedCmp.cmp_refl
    rw [List.cons_append, List.cons_append, lexCmp, hx, lexCmp_append_left xs]
    rfl

theorem then_of_ne_eq {o : Ordering} (h : o ≠ .eq) (o' : Ordering) : o.then o' = o := by
  cases o <;> first | rfl | exact absurd rfl h

/-- **Numbers in names sort by value.** Two strings that agree up to a number written in
decimal, after a byte that is no digit (or at the start) and before one (or at the end),
compare as the two numbers do when they differ, in both modes: `file2.txt` comes before
`file10.txt`. -/
theorem autoDigitStrCmp_decimal (strict : Bool) (p q r : Bytes) {m n : Nat} (hmn : m ≠ n)
    (hp : ∀ c ∈ p.getLast?, isDigit c = false) (hq : ∀ c ∈ q.head?, isDigit c = false)
    (hr : ∀ c ∈ r.head?, isDigit c = false) :
    autoDigitStrCmp (p ++ decimal m ++ q) (p ++ decimal n ++ r) strict = ofOrdering (compare m n) := by
  have hc : compare m n ≠ .eq := fun h => hmn (compare_eq_iff_eq.1 h)
  rw [autoDigitStrCmp_tokens, List.append_assoc, List.append_assoc, tokenize_append _ _ hp,
    tokenize_append _ _ hp, tokenize_decimal_append m hq, tokenize_decimal_append n hr,
    lexCmp_append_left, lexCmp, tokenCmp, numeral_decimal, numeral_decimal, then_of_ne_eq hc,
    then_of_ne_eq hc]

theorem autoDigitStrCmp_file2_file10 :
    (2 ≠ 10) ∧ (∀ c ∈ (bytes "file").getLast?, isDigit c = false) ∧
      (∀ c ∈ (bytes ".txt").head?, isDigit c = false) ∧
      (∀ c ∈ (bytes ".txt").head?, isDigit c = false) ∧
      autoDigitStrCmp (bytes "file" ++ decimal 2 ++ bytes ".txt")
        (bytes "file" ++ decimal 10 ++ bytes ".txt") false = ofOrdering (compare 2 10) :=
  ⟨by decide, by decide, by decide, by decide,
    autoDigitStrCmp_decimal false _ _ _ (by decide) (by decide) (by decide) (by decide)⟩

/-! ## Strict mode on numbers without leading zeroes

The strict flag only breaks ties between runs of equal value, so on strings whose numbers
are all written as `decimal` writes them the two modes agree. Elsewhere strict mode is not a
refinement of the other: it decides at the first such tie, before the bytes after it, so
`"1a" < "01b"` in the default mode but `"01b" < "1a"` in strict mode. -/

/-- A byte, or a digit run written as `decimal` writes its value: no leading zero, but for
`0` itself. -/
def Token.isCanonical : Token → Bool
  | .number r _ _ => r == decimal (numeral 10 r)
  | .byte .. => true

/-- Every number in `s` is written without leading zeroes. -/
def canonicalNumbers (s : Bytes) : Bool := (tokenize s).all Token.isCanonical

theorem canonicalNumbers_decimal (n : Nat) : canonicalNumbers (decimal n) = true := by
  have h := tokenize_decimal_append n (q := []) (by simp)
  rw [List.append_nil] at h
  simp [canonicalNumbers, h, tokenize.eq_1, Token.isCanonical, numeral_decimal]

/-- Two canonical tokens compare alike in both modes: equal values mean equal runs. -/
theorem tokenCmp_canonical {t u : Token} (ht : t.isCanonical = true) (hu : u.isCanonical = true) :
    tokenCmp true t u = tokenCmp false t u := by
  cases t with
  | byte x _ => cases u <;> rfl
  | number r _ _ => cases u with
    | byte y _ => rfl
    | number r' _ _ =>
      simp only [Token.isCanonical, beq_iff_eq] at ht hu
      simp only [tokenCmp, if_true, if_false, Bool.false_eq_true]
      by_cases hc : compare (numeral 10 r) (numeral 10 r') = .eq
      · have hr : r = r' := calc
          r = decimal (numeral 10 r) := ht
          _ = decimal (numeral 10 r') := by rw [compare_eq_iff_eq.1 hc]
          _ = r' := hu.symm
        subst hr
        rw [hc, compare_eq_iff_eq.2 rfl]
      · rw [then_of_ne_eq hc, then_of_ne_eq hc]

theorem lexCmp_congr {α : Type} {cmp cmp' : α → α → Ordering} :
    ∀ {xs ys : List α}, (∀ x ∈ xs, ∀ y ∈ ys, cmp x y = cmp' x y) →
      lexCmp cmp xs ys = lexCmp cmp' xs ys
  | [], [], _ | [], _ :: _, _ | _ :: _, [], _ => rfl
  | x :: xs, y :: ys, h => by
    rw [lexCmp, lexCmp, h x (List.mem_cons_self _ _) y (List.mem_cons_self _ _),
      lexCmp_congr fun a ha b hb => h a (List.mem_cons_of_mem _ ha) b (List.mem_cons_of_mem _ hb)]

/-- **On numbers without leading zeroes the two modes agree.** For all byte strings whose
digit runs are each `0` or start with a nonzero digit, `AutoDigitStrCmp` returns the same in
strict mode as in the default one, so `StrictAutoDigitLessThan` and `AutoDigitLessThan`
order them alike. -/
theorem autoDigitStrCmp_strict_of_canonical {a b : Bytes} (ha : canonicalNumbers a = true)
    (hb : canonicalNumbers b = true) :
    autoDigitStrCmp a b true = autoDigitStrCmp a b false := by
  rw [autoDigitStrCmp_tokens, autoDigitStrCmp_tokens, lexCmp_congr]
  intro t ht u hu
  exact tokenCmp_canonical (List.all_eq_true.1 ha t ht) (List.all_eq_true.1 hb u hu)

/-- `7` and `12` compare alike in both modes. -/
theorem autoDigitStrCmp_strict_7_12 :
    canonicalNumbers (decimal 7) = true ∧ canonicalNumbers (decimal 12) = true ∧
      autoDigitStrCmp (decimal 7) (decimal 12) true = autoDigitStrCmp (decimal 7) (decimal 12) false :=
  ⟨canonicalNumbers_decimal 7, canonicalNumbers_decimal 12,
    autoDigitStrCmp_strict_of_canonical (canonicalNumbers_decimal 7) (canonicalNumbers_decimal 12)⟩

end Gaia.Numbers
