import ApplicationLayerFirewall.JsonPrinter
import Mathlib.Tactic.FieldSimp

/-!
# Printed numbers denote the doubles they came from

Seventeen significant digits are closer to a double than half the distance to
its neighbours, so reading the printed numeral finds the double again. Trailing
zeros carry nothing, and no numeral has a leading zero that the standard forbids.
-/

namespace PrintedNumerals

open BinaryRounding JsonNumerals JsonPrinter JsonTexts PicoJson

/-! ### Decimal digits -/

theorem isDigit_iff (c : Char) : IsDigit c ↔ c.isDigit = true := by
  simp [IsDigit, Char.isDigit, Char.le_def]

theorem digits_toDigits (n : Nat) : Digits (Nat.toDigits 10 n) :=
  fun c hc => (isDigit_iff c).mpr (Nat.isDigit_of_mem_toDigits (by decide) (by decide) hc)

theorem digitsValue_toDigits (n : Nat) : digitsValue (Nat.toDigits 10 n) = n :=
  Nat.ofDigitChars_ten_toDigits

theorem digitsValue_append_zeros (t : List Char) (k : Nat) :
    digitsValue (t ++ List.replicate k '0') = 10 ^ k * digitsValue t := by
  rw [digitsValue, Nat.ofDigitChars_append, Nat.ofDigitChars_replicate_zero, digitsValue]

theorem digitsValue_zeros_append (t : List Char) (k : Nat) :
    digitsValue (List.replicate k '0' ++ t) = digitsValue t := by
  rw [digitsValue, Nat.ofDigitChars_append, Nat.ofDigitChars_replicate_zero, Nat.mul_zero,
    digitsValue]

/-- The first digit of a positive number is not a zero. -/
theorem toDigits_head {n : Nat} (hn : 0 < n) : (Nat.toDigits 10 n).head? ≠ some '0' := by
  induction n using Nat.strongRecOn with
  | ind n ih =>
      by_cases hsmall : n < 10
      · rw [Nat.toDigits_of_lt_base hsmall]
        have table : ∀ d : Fin 10, 0 < d.val → [d.val.digitChar].head? ≠ some '0' := by decide
        exact table ⟨n, hsmall⟩ hn
      · rw [Nat.toDigits_of_base_le (by decide) (by omega), List.head?_append]
        have hrec := ih (n / 10) (by omega) (by omega)
        cases h : (Nat.toDigits 10 (n / 10)).head? with
        | none => exact absurd (List.head?_eq_none_iff.mp h) Nat.toDigits_ne_nil
        | some c =>
            rw [h] at hrec
            exact hrec

theorem length_toDigits {n k : Nat} (hlo : 10 ^ k ≤ n) (hhi : n < 10 ^ (k + 1)) :
    (Nat.toDigits 10 n).length = k + 1 := by
  have hle := (Nat.length_toDigits_le_iff (b := 10) (by decide) (Nat.succ_pos k)).mpr hhi
  by_cases hk : k = 0
  · have hpos := Nat.length_toDigits_pos (b := 10) (n := n)
    omega
  · have hgt : ¬ (Nat.toDigits 10 n).length ≤ k := fun h =>
      absurd ((Nat.length_toDigits_le_iff (b := 10) (by decide) (by omega)).mp h) (by omega)
    omega

/-! ### Fractions without trailing zeros -/

theorem exists_stripZeros (t : List Char) :
    ∃ k, t = stripZeros t ++ List.replicate k '0' := by
  refine ⟨(t.rtakeWhile (· = '0')).length, ?_⟩
  have hzeros : t.rtakeWhile (· = '0') = List.replicate (t.rtakeWhile (· = '0')).length '0' := by
    refine List.eq_replicate_of_mem fun c hc => ?_
    have hzero := List.mem_rtakeWhile_imp hc
    exact of_decide_eq_true hzero
  rw [← hzeros]
  exact (List.rdropWhile_append_rtakeWhile (p := (· = '0')) (l := t)).symm

theorem fractionOf_getD (t : List Char) : (fractionOf t).getD [] = stripZeros t := by
  rw [fractionOf]
  split_ifs with h
  · exact h.symm
  · rfl

/-- Stripping zeros from the fraction leaves the value alone. -/
theorem value_fractionOf (whole t : List Char) (e : ℤ) :
    (digitsValue (whole ++ (fractionOf t).getD []) : ℚ) *
        10 ^ (e - ((fractionOf t).getD []).length) =
      digitsValue (whole ++ t) * 10 ^ (e - t.length) := by
  obtain ⟨k, hk⟩ := exists_stripZeros t
  rw [fractionOf_getD]
  conv_rhs => rw [hk, ← List.append_assoc, digitsValue_append_zeros]
  have hlen : (t.length : ℤ) = (stripZeros t).length + k := by
    conv_lhs => rw [hk]
    rw [List.length_append, List.length_replicate]
    push_cast
    rfl
  have hexp : e - ((stripZeros t).length : ℤ) = k + (e - t.length) := by
    rw [hlen]
    ring
  rw [← hk, hexp, zpow_add₀ (by norm_num), zpow_natCast]
  push_cast
  ring

theorem digits_fractionOf {t digits : List Char} (ht : Digits t) (h : fractionOf t = some digits) :
    Digits digits ∧ digits ≠ [] := by
  rw [fractionOf] at h
  split_ifs at h with hempty
  cases h
  refine ⟨fun c hc => ht c ?_, hempty⟩
  exact (List.rdropWhile_prefix _ t).subset hc

/-! ### Seventeen significant digits -/

theorem ten_zpow_pos (e : ℤ) : (0 : ℚ) < 10 ^ e := zpow_pos (by norm_num) e

/-- A number in units of its seventeenth digit. -/
theorem scaled_bounds {x : ℚ} (hx : 0 < x) :
    ((10 ^ 16 : ℕ) : ℚ) ≤ x / 10 ^ (Int.log 10 x - 16) ∧
      x / 10 ^ (Int.log 10 x - 16) < (10 ^ 17 : ℕ) := by
  have hpos := ten_zpow_pos (Int.log 10 x - 16)
  have hlo : (10 : ℚ) ^ Int.log 10 x ≤ x := by
    exact_mod_cast Int.zpow_log_le_self (b := 10) (by norm_num) hx
  have hhi : x < 10 ^ (Int.log 10 x + 1) := by
    exact_mod_cast Int.lt_zpow_succ_log_self (b := 10) (by norm_num) x
  constructor
  · rw [le_div_iff₀ hpos]
    calc ((10 ^ 16 : ℕ) : ℚ) * 10 ^ (Int.log 10 x - 16) = 10 ^ Int.log 10 x := by
          rw [zpow_sub₀ (by norm_num)]
          push_cast
          field_simp
      _ ≤ x := hlo
  · rw [div_lt_iff₀ hpos]
    calc x < 10 ^ (Int.log 10 x + 1) := hhi
      _ = ((10 ^ 17 : ℕ) : ℚ) * 10 ^ (Int.log 10 x - 16) := by
          rw [zpow_sub₀ (by norm_num), zpow_add₀ (by norm_num)]
          push_cast
          field_simp
          norm_num

/-- The digits that `%.17g` prints, and how far they are from the number. -/
theorem significant_spec {x : ℚ} (hx : 0 < x) :
    10 ^ 16 ≤ (significant x).1 ∧ (significant x).1 < 10 ^ 17 ∧
      |(significant x).1 * (10 : ℚ) ^ ((significant x).2 - 16) - x| ≤
        1 / 2 * 10 ^ (Int.log 10 x - 16) := by
  obtain ⟨hlo, hhi⟩ := scaled_bounds hx
  have hpos := ten_zpow_pos (Int.log 10 x - 16)
  have habs : |x / 10 ^ (Int.log 10 x - 16)| = x / 10 ^ (Int.log 10 x - 16) :=
    abs_of_pos (div_pos hx hpos)
  have hnear := abs_sub_roundEven_le (x / 10 ^ (Int.log 10 x - 16))
  have hle := natAbs_roundEven_le (by rw [habs]; exact hhi)
  have hge := le_natAbs_roundEven (by rw [habs]; exact hlo)
  rw [significant]
  generalize hround : roundEven (x / 10 ^ (Int.log 10 x - 16)) = r at hnear hle hge
  have hrpos : 0 ≤ r := by
    have hclose := (abs_le.mp hnear).2
    have hbig : (10 : ℚ) ^ 16 ≤ x / 10 ^ (Int.log 10 x - 16) := by exact_mod_cast hlo
    have hcast : (0 : ℚ) < r := by linarith
    exact_mod_cast le_of_lt hcast
  rw [abs_of_nonneg hrpos] at hle hge
  have herror : |(r : ℚ) * 10 ^ (Int.log 10 x - 16) - x| ≤
      1 / 2 * 10 ^ (Int.log 10 x - 16) := by
    have heq : (r : ℚ) * 10 ^ (Int.log 10 x - 16) - x =
        -(x / 10 ^ (Int.log 10 x - 16) - r) * 10 ^ (Int.log 10 x - 16) := by
      field_simp
      ring
    rw [heq, abs_mul, abs_neg, abs_of_pos hpos]
    exact mul_le_mul_of_nonneg_right hnear (le_of_lt hpos)
  have hcast : ((r.toNat : ℕ) : ℚ) = r := by
    have hint : ((r.toNat : ℕ) : ℤ) = r := Int.toNat_of_nonneg hrpos
    exact_mod_cast congrArg (fun z : ℤ => (z : ℚ)) hint
  split_ifs with hsmall
  · refine ⟨by omega, hsmall, ?_⟩
    simp only [hcast]
    exact herror
  · have hfull : r.toNat = 10 ^ 17 := by omega
    refine ⟨le_rfl, by norm_num, ?_⟩
    have hsame : ((10 ^ 16 : ℕ) : ℚ) * 10 ^ (Int.log 10 x + 1 - 16) =
        r * 10 ^ (Int.log 10 x - 16) := by
      have hexp : Int.log 10 x + 1 - 16 = 1 + (Int.log 10 x - 16) := by ring
      rw [← hcast, hfull, hexp, zpow_add₀ (by norm_num), zpow_one]
      push_cast
      ring
    simp only [hsame]
    exact herror

/-! ### The numeral of a number -/

theorem exponentValue_exponentOf (e : ℤ) :
    Numeral.exponentValue (some (exponentOf e)) = e := by
  have hdigits : digitsValue (exponentOf e).2.2 = e.natAbs := by
    have hunfold : (exponentOf e).2.2 = if e.natAbs < 10 then '0' :: Nat.toDigits 10 e.natAbs
        else Nat.toDigits 10 e.natAbs := rfl
    rw [hunfold]
    split_ifs
    · exact (digitsValue_zeros_append _ 1).trans (digitsValue_toDigits _)
    · exact digitsValue_toDigits _
  have hsign : (exponentOf e).2.1 = some (if e < 0 then '-' else '+') := rfl
  change (if (exponentOf e).2.1 = some '-' then -(digitsValue (exponentOf e).2.2 : ℤ)
    else digitsValue (exponentOf e).2.2) = e
  rw [hdigits, hsign]
  by_cases hneg : e < 0
  · rw [if_pos hneg, if_pos rfl]
    omega
  · rw [if_neg hneg, if_neg (by decide)]
    omega

theorem exponentOk_exponentOf (e : ℤ) : Numeral.ExponentOk (some (exponentOf e)) := by
  rw [exponentOf, Numeral.ExponentOk]
  refine ⟨Or.inl rfl, ?_, ?_, ?_⟩
  · split_ifs
    · exact Or.inr (Or.inr rfl)
    · exact Or.inr (Or.inl rfl)
  · split_ifs
    · exact List.forall_mem_cons.mpr ⟨by decide, digits_toDigits _⟩
    · exact digits_toDigits _
  · split_ifs
    · exact List.cons_ne_nil _ _
    · exact Nat.toDigits_ne_nil

/-- The sign in front of the digits. -/
def signOf (d : ℚ) : ℚ := if d < 0 then -1 else 1

theorem value_formatG {d : ℚ} (hd : d ≠ 0) :
    (formatG d).value =
      signOf d * ((significant |d|).1 * 10 ^ ((significant |d|).2 - 16)) := by
  obtain ⟨hlo, hhi, -⟩ := significant_spec (abs_pos.mpr hd)
  have hlen : (Nat.toDigits 10 (significant |d|).1).length = 17 := length_toDigits hlo hhi
  have hvalue := digitsValue_toDigits (significant |d|).1
  rw [formatG]
  generalize Nat.toDigits 10 (significant |d|).1 = digits at hlen hvalue
  generalize (significant |d|).2 = e
  have hsign : (if decide (d < 0) = true then (-1 : ℚ) else 1) = signOf d := by
    rw [signOf]
    by_cases h : d < 0 <;> simp [h]
  split_ifs with hfixed hsmall
  · have hnat : ((digits.drop (e.toNat + 1)).length : ℤ) = 16 - e := by
      rw [List.length_drop]
      omega
    rw [Numeral.value]
    simp only [hsign]
    rw [mul_assoc, value_fractionOf, List.take_append_drop, hvalue, hnat]
    simp only [Numeral.exponentValue]
    congr 3
    ring
  · have hnat : ((List.replicate (-e - 1).toNat '0' ++ digits).length : ℤ) = 16 - e := by
      rw [List.length_append, List.length_replicate]
      omega
    have hzeros : digitsValue (['0'] ++ (List.replicate (-e - 1).toNat '0' ++ digits)) =
        (significant |d|).1 := by
      rw [← List.append_assoc, List.singleton_append, ← List.replicate_succ,
        digitsValue_zeros_append, hvalue]
    rw [Numeral.value]
    simp only [hsign]
    rw [mul_assoc, value_fractionOf, hzeros, hnat]
    simp only [Numeral.exponentValue]
    congr 3
    ring
  · have hnat : ((digits.drop 1).length : ℤ) = 16 := by
      rw [List.length_drop]
      omega
    rw [Numeral.value]
    simp only [hsign]
    rw [mul_assoc, value_fractionOf, List.take_append_drop, hvalue, hnat,
      exponentValue_exponentOf]

theorem standard_formatG {d : ℚ} (hd : d ≠ 0) : (formatG d).Standard := by
  obtain ⟨hlo, hhi, -⟩ := significant_spec (abs_pos.mpr hd)
  have hlen : (Nat.toDigits 10 (significant |d|).1).length = 17 := length_toDigits hlo hhi
  have hhead : (Nat.toDigits 10 (significant |d|).1).head? ≠ some '0' :=
    toDigits_head (lt_of_lt_of_le (by norm_num) hlo)
  have hdigits := digits_toDigits (significant |d|).1
  rw [formatG]
  generalize Nat.toDigits 10 (significant |d|).1 = digits at hlen hhead hdigits
  generalize (significant |d|).2 = e
  have htake : ∀ k, Digits (digits.take k) := fun k c hc => hdigits c (List.mem_of_mem_take hc)
  have hdrop : ∀ k, Digits (digits.drop k) := fun k c hc => hdigits c (List.mem_of_mem_drop hc)
  have hwhole : ∀ k, digits.take (k + 1) ≠ [] := by
    intro k hnil
    have hlength := congrArg List.length hnil
    rw [List.length_take, List.length_nil] at hlength
    omega
  have hleading : ∀ k, (digits.take (k + 1)).head? ≠ some '0' := by
    intro k
    rw [List.head?_take, if_neg (Nat.succ_ne_zero k)]
    exact hhead
  split_ifs with hfixed hsmall
  · exact ⟨htake _, hwhole _, fun h => absurd h (hleading _),
      fun _ h => digits_fractionOf (hdrop _) h, trivial⟩
  · have hzero : Digits ['0'] := by
      intro c hc
      rw [List.mem_singleton.mp hc]
      decide
    refine ⟨hzero, List.cons_ne_nil _ _, fun _ => rfl, fun _ h => digits_fractionOf ?_ h,
      trivial⟩
    intro c hc
    rcases List.mem_append.mp hc with hzero | hc
    · rw [List.eq_of_mem_replicate hzero]
      decide
    · exact hdigits c hc
  · exact ⟨htake _, hwhole 0, fun h => absurd h (hleading 0),
      fun _ h => digits_fractionOf (hdrop _) h, exponentOk_exponentOf e⟩

theorem value_formatF (n : ℤ) : (formatF n).value = n := by
  rw [Numeral.value, formatF]
  simp only [Option.getD_none, List.append_nil, digitsValue_toDigits, Numeral.exponentValue,
    List.length_nil, Nat.cast_zero, sub_zero, zpow_zero, mul_one]
  have habs : ((n.natAbs : ℕ) : ℚ) = |(n : ℚ)| := by
    rw [← Int.cast_abs, Int.abs_eq_natAbs]
    rfl
  rw [habs]
  by_cases hneg : n < 0
  · have hcast : (n : ℚ) < 0 := by exact_mod_cast hneg
    simp [hneg, abs_of_neg hcast]
  · have hcast : (0 : ℚ) ≤ n := by exact_mod_cast le_of_not_gt hneg
    simp [hneg, abs_of_nonneg hcast]

theorem standard_formatF (n : ℤ) : (formatF n).Standard where
  whole := digits_toDigits _
  nonempty := Nat.toDigits_ne_nil
  leading := by
    intro h
    by_cases hzero : n.natAbs = 0
    · rw [formatF, hzero]
      rfl
    · exact absurd h (toDigits_head (Nat.pos_of_ne_zero hzero))
  fraction := fun _ h => by cases h
  exponent := trivial

/-! ### Reading a printed number -/

theorem nearest_formatG {d : ℚ} (hd : d ≠ 0) (h : binary64.Representable d) :
    binary64.nearest (formatG d).value = some d := by
  apply binary64.nearest_of_close h hd
  obtain ⟨-, -, hnear⟩ := significant_spec (abs_pos.mpr hd)
  have hlow : (10 : ℚ) ^ Int.log 10 |d| ≤ |d| := by
    exact_mod_cast Int.zpow_log_le_self (b := 10) (by norm_num) (abs_pos.mpr hd)
  have hunit : (10 : ℚ) ^ (Int.log 10 |d| - 16) * 10 ^ 16 = 10 ^ Int.log 10 |d| := by
    rw [← zpow_natCast, ← zpow_add₀ (by norm_num)]
    congr 1
    norm_num
  have hdist : |(formatG d).value - d| =
      abs ((significant |d|).1 * (10 : ℚ) ^ ((significant |d|).2 - 16) - abs d) := by
    rw [value_formatG hd, signOf]
    by_cases hneg : d < 0
    · rw [if_pos hneg, abs_of_neg hneg, ← abs_neg]
      congr 1
      ring
    · rw [if_neg hneg, abs_of_nonneg (le_of_not_gt hneg), one_mul]
  have hbits : (2 : ℚ) ^ (binary64.precision + 1) = 18014398509481984 := by
    norm_num [binary64]
  have hpos := ten_zpow_pos (Int.log 10 |d| - 16)
  rw [hdist, hbits]
  norm_num at hunit
  linarith

theorem nearest_numeralOf {d : ℚ} (h : binary64.Representable d) :
    binary64.nearest (numeralOf d).value = some d := by
  rw [numeralOf]
  split_ifs with hwhole
  · have hd : ((d.num : ℤ) : ℚ) = d := by
      have hdiv := Rat.num_div_den d
      rw [hwhole.2, Nat.cast_one, div_one] at hdiv
      exact hdiv
    rw [value_formatF, hd]
    exact binary64.nearest_of_representable h
  · apply nearest_formatG _ h
    rintro rfl
    exact hwhole ⟨by norm_num, rfl⟩

theorem standard_numeralOf (d : ℚ) : (numeralOf d).Standard := by
  rw [numeralOf]
  split_ifs with hwhole
  · exact standard_formatF d.num
  · apply standard_formatG
    rintro rfl
    exact hwhole ⟨by norm_num, rfl⟩

/-- A double is printed as a standard numeral that is read back as itself. -/
theorem spelling_numeralOf {d : ℚ} (h : binary64.Representable d) :
    Spelling Numeral.Standard (numeralOf d).text d :=
  ⟨numeralOf d, standard_numeralOf d, rfl, nearest_numeralOf h⟩

end PrintedNumerals
