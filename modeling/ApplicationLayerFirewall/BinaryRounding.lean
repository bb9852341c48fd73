import Mathlib.Algebra.Order.Floor.Ring
import Mathlib.Data.Int.Log
import Mathlib.Data.Rat.Floor
import Mathlib.Tactic.Linarith
import Mathlib.Tactic.NormNum
import Mathlib.Tactic.Positivity
import Mathlib.Tactic.Ring

/-!
# Rounding to a binary floating-point format

A format has a number of significand bits and a range for the exponent of the
last bit. A rational is rounded to a multiple of the spacing at its magnitude,
ties to the even multiple. Values are exact rationals: the sign of a zero and
the infinities are not values, and a result beyond the range is no result.
-/

namespace BinaryRounding

/-! ### Rounding to integers -/

def roundEven (q : ℚ) : ℤ :=
  if q - ⌊q⌋ < 1 / 2 then ⌊q⌋
  else if 1 / 2 < q - ⌊q⌋ then ⌊q⌋ + 1
  else if ⌊q⌋ % 2 = 0 then ⌊q⌋ else ⌊q⌋ + 1

@[simp] theorem roundEven_intCast (n : ℤ) : roundEven (n : ℚ) = n := by
  simp [roundEven]

theorem abs_sub_roundEven_le (q : ℚ) : |q - roundEven q| ≤ 1 / 2 := by
  have hlo := Int.floor_le q
  have hhi := Int.lt_floor_add_one q
  rw [roundEven, abs_le]
  split_ifs with hbelow habove heven
  · constructor <;> linarith
  · push_cast
    constructor <;> linarith
  · constructor <;> linarith
  · push_cast
    constructor <;> linarith

/-- Two integers closer than one are equal, so a rational within half of an integer rounds to it. -/
theorem roundEven_eq_of_abs_lt {q : ℚ} {n : ℤ} (h : |q - n| < 1 / 2) : roundEven q = n := by
  have hround := abs_le.mp (abs_sub_roundEven_le q)
  have hn := abs_lt.mp h
  have hlo : (-1 : ℚ) < (roundEven q - n : ℤ) := by
    push_cast
    linarith
  have hhi : ((roundEven q - n : ℤ) : ℚ) < 1 := by
    push_cast
    linarith
  have hlo' : -1 < roundEven q - n := by exact_mod_cast hlo
  have hhi' : roundEven q - n < 1 := by exact_mod_cast hhi
  omega

theorem natAbs_roundEven_le {q : ℚ} {n : ℕ} (h : |q| < n) : |roundEven q| ≤ n := by
  have hround := abs_le.mp (abs_sub_roundEven_le q)
  have hq := abs_lt.mp h
  rw [abs_le]
  constructor
  · have hlo : (-(n : ℤ) - 1 : ℤ) < (roundEven q : ℚ) := by
      push_cast
      linarith
    have hlo' : -(n : ℤ) - 1 < roundEven q := by exact_mod_cast hlo
    omega
  · have hhi : (roundEven q : ℚ) < ((n : ℤ) + 1 : ℤ) := by
      push_cast
      linarith
    have hhi' : roundEven q < (n : ℤ) + 1 := by exact_mod_cast hhi
    omega

theorem le_natAbs_roundEven {q : ℚ} {n : ℕ} (h : (n : ℚ) ≤ |q|) : (n : ℤ) ≤ |roundEven q| := by
  have hround := abs_le.mp (abs_sub_roundEven_le q)
  have hlt : ((n : ℤ) - 1 : ℤ) < |(roundEven q : ℚ)| := by
    push_cast
    rcases le_abs.mp h with hpos | hneg
    · exact lt_of_lt_of_le (by linarith) (le_abs_self _)
    · exact lt_of_lt_of_le (by linarith) (neg_le_abs _)
  have hlt' : (n : ℤ) - 1 < |roundEven q| := by exact_mod_cast hlt
  omega

/-! ### Formats -/

structure Format where
  precision : ℕ
  lowest : ℤ
  highest : ℤ
  precision_pos : 0 < precision
  lowest_le : lowest ≤ highest

/-- The doubles of C on every common machine. -/
def binary64 : Format where
  precision := 53
  lowest := -1074
  highest := 971
  precision_pos := by decide
  lowest_le := by decide

namespace Format
variable (f : Format)

def Representable (q : ℚ) : Prop :=
  ∃ m e : ℤ, |m| < 2 ^ f.precision ∧ f.lowest ≤ e ∧ e ≤ f.highest ∧ q = m * 2 ^ e

/-- The exponent of the spacing between neighbours at the magnitude of `q`. -/
def spacing (q : ℚ) : ℤ := max (Int.log 2 |q| - (f.precision - 1)) f.lowest

/-- The nearest multiple of the spacing, before the range is checked. -/
def rounded (q : ℚ) : ℚ := roundEven (q / 2 ^ f.spacing q) * 2 ^ f.spacing q

def nearest (q : ℚ) : Option ℚ :=
  if |f.rounded q| < 2 ^ (f.highest + f.precision) then some (f.rounded q) else none

theorem two_zpow_pos (e : ℤ) : (0 : ℚ) < 2 ^ e := zpow_pos (by norm_num) e

theorem lowest_le_spacing (q : ℚ) : f.lowest ≤ f.spacing q := le_max_right _ _

theorem two_zpow_log_le {q : ℚ} (hq : q ≠ 0) : (2 : ℚ) ^ Int.log 2 |q| ≤ |q| := by
  have h := Int.zpow_log_le_self (b := 2) (by norm_num) (abs_pos.mpr hq)
  exact_mod_cast h

theorem lt_two_zpow_log (q : ℚ) : |q| < 2 ^ (Int.log 2 |q| + 1) := by
  have h := Int.lt_zpow_succ_log_self (b := 2) (by norm_num) |q|
  exact_mod_cast h

/-- A quotient by the spacing has no more bits than the significand. -/
theorem abs_div_spacing_lt (q : ℚ) : |q / 2 ^ f.spacing q| < (2 ^ f.precision : ℕ) := by
  have hpos := two_zpow_pos (f.spacing q)
  have hexp : Int.log 2 |q| + 1 ≤ f.precision + f.spacing q := by
    have hle : Int.log 2 |q| - (f.precision - 1) ≤ f.spacing q := le_max_left _ _
    omega
  rw [abs_div, abs_of_pos hpos, div_lt_iff₀ hpos]
  calc |q| < 2 ^ (Int.log 2 |q| + 1) := lt_two_zpow_log q
    _ ≤ 2 ^ ((f.precision : ℤ) + f.spacing q) := zpow_le_zpow_right₀ (by norm_num) hexp
    _ = (2 ^ f.precision : ℕ) * 2 ^ f.spacing q := by
        rw [zpow_add₀ (by norm_num), zpow_natCast]
        push_cast
        rfl

/-- Above the lowest spacing the significand is full. -/
theorem le_abs_div_spacing {q : ℚ} (hq : q ≠ 0) (hnormal : f.lowest < f.spacing q) :
    ((2 ^ (f.precision - 1) : ℕ) : ℚ) ≤ |q / 2 ^ f.spacing q| := by
  have hpos := two_zpow_pos (f.spacing q)
  have hspacing : f.spacing q = Int.log 2 |q| - (f.precision - 1) := by
    rw [spacing] at hnormal ⊢
    rcases max_choice (Int.log 2 |q| - ((f.precision : ℤ) - 1)) f.lowest with h | h
    · exact h
    · omega
  have hprecision := f.precision_pos
  rw [abs_div, abs_of_pos hpos, le_div_iff₀ hpos]
  calc ((2 ^ (f.precision - 1) : ℕ) : ℚ) * 2 ^ f.spacing q
      = 2 ^ (((f.precision - 1 : ℕ) : ℤ) + f.spacing q) := by
        rw [zpow_add₀ (by norm_num), zpow_natCast]
        push_cast
        rfl
    _ = 2 ^ Int.log 2 |q| := by
        congr 1
        omega
    _ ≤ |q| := two_zpow_log_le hq

/-! ### Representable values are fixed -/

theorem spacing_le_of_representable {q : ℚ} (hq : q ≠ 0) {m e : ℤ}
    (hm : |m| < 2 ^ f.precision) (he : f.lowest ≤ e) (heq : q = m * 2 ^ e) :
    f.spacing q ≤ e := by
  have hlt : |q| < 2 ^ ((f.precision : ℤ) + e) := by
    have hcast : |(m : ℚ)| < 2 ^ f.precision := by exact_mod_cast hm
    rw [heq, abs_mul, abs_of_pos (two_zpow_pos e), zpow_add₀ (by norm_num), zpow_natCast]
    exact mul_lt_mul_of_pos_right hcast (two_zpow_pos e)
  have hlog : Int.log 2 |q| < f.precision + e := by
    have hpow := lt_of_le_of_lt (two_zpow_log_le hq) hlt
    exact (zpow_lt_zpow_iff_right₀ (by norm_num)).mp hpow
  exact max_le (by omega) he

/-- A value of the format is an integral multiple of its spacing. -/
theorem exists_eq_mul_spacing {q : ℚ} (h : f.Representable q) :
    ∃ n : ℤ, q = n * 2 ^ f.spacing q := by
  obtain ⟨m, e, hm, he, -, heq⟩ := h
  by_cases hq : q = 0
  · exact ⟨0, by simp [hq]⟩
  · have hle := f.spacing_le_of_representable hq hm he heq
    refine ⟨m * 2 ^ (e - f.spacing q).toNat, ?_⟩
    have hexp : ((e - f.spacing q).toNat : ℤ) + f.spacing q = e := by omega
    calc q = m * 2 ^ e := heq
      _ = m * 2 ^ (((e - f.spacing q).toNat : ℤ) + f.spacing q) := by rw [hexp]
      _ = (m * 2 ^ (e - f.spacing q).toNat : ℤ) * 2 ^ f.spacing q := by
          rw [zpow_add₀ (by norm_num), zpow_natCast]
          push_cast
          ring

theorem abs_lt_of_representable {q : ℚ} (h : f.Representable q) :
    |q| < 2 ^ (f.highest + f.precision) := by
  obtain ⟨m, e, hm, -, he, heq⟩ := h
  have hcast : |(m : ℚ)| < 2 ^ f.precision := by exact_mod_cast hm
  calc |q| = |(m : ℚ)| * 2 ^ e := by rw [heq, abs_mul, abs_of_pos (two_zpow_pos e)]
    _ < 2 ^ f.precision * 2 ^ e := mul_lt_mul_of_pos_right hcast (two_zpow_pos e)
    _ ≤ 2 ^ f.precision * 2 ^ f.highest := by
        apply mul_le_mul_of_nonneg_left _ (by positivity)
        exact zpow_le_zpow_right₀ (by norm_num) he
    _ = 2 ^ (f.highest + f.precision) := by
        rw [zpow_add₀ (by norm_num), zpow_natCast]
        ring

theorem rounded_of_representable {q : ℚ} (h : f.Representable q) : f.rounded q = q := by
  obtain ⟨n, hn⟩ := f.exists_eq_mul_spacing h
  have hne := (two_zpow_pos (f.spacing q)).ne'
  have hdiv : q / 2 ^ f.spacing q = n := by
    rw [div_eq_iff hne]
    exact hn
  rw [rounded, hdiv, roundEven_intCast]
  exact hn.symm

theorem nearest_of_representable {q : ℚ} (h : f.Representable q) : f.nearest q = some q := by
  rw [nearest, f.rounded_of_representable h, if_pos (f.abs_lt_of_representable h)]

theorem representable_intCast {n : ℤ} (h : |n| < 2 ^ f.precision) (hlo : f.lowest ≤ 0)
    (hhi : 0 ≤ f.highest) : f.Representable n :=
  ⟨n, 0, h, hlo, hhi, by simp⟩

/-! ### Results are representable -/

/-- A full significand is the smallest one of the next exponent. -/
theorem representable_of_multiple {n e : ℤ} (hn : |n| ≤ 2 ^ f.precision) (he : f.lowest ≤ e)
    (hbelow : |(n : ℚ) * 2 ^ e| < 2 ^ (f.highest + f.precision)) (hexp : e ≤ f.highest) :
    f.Representable (n * 2 ^ e) := by
  rcases lt_or_eq_of_le hn with hlt | hfull
  · exact ⟨n, e, hlt, he, hexp, rfl⟩
  · have hprecision := f.precision_pos
    have hpow : (2 : ℤ) ^ f.precision = 2 ^ (f.precision - 1) * 2 := by
      rw [← pow_succ, Nat.sub_add_cancel hprecision]
    have hdvd : 2 ∣ n := by
      rw [← dvd_abs, hfull, hpow]
      exact dvd_mul_left 2 _
    obtain ⟨m, rfl⟩ := hdvd
    have hm : |m| = 2 ^ (f.precision - 1) := by
      rw [abs_mul, abs_of_pos (by norm_num : (0 : ℤ) < 2), hpow] at hfull
      linarith
    refine ⟨m, e + 1, ?_, by omega, ?_, ?_⟩
    · rw [hm, hpow]
      have hpos : (0 : ℤ) < 2 ^ (f.precision - 1) := by positivity
      linarith
    · have hvalue : |((2 * m : ℤ) : ℚ) * 2 ^ e| = 2 ^ (e + (f.precision : ℤ)) := by
        have hcast : |((2 * m : ℤ) : ℚ)| = 2 ^ f.precision := by exact_mod_cast hfull
        rw [abs_mul, abs_of_pos (two_zpow_pos e), hcast, zpow_add₀ (by norm_num), zpow_natCast]
        ring
      rw [hvalue] at hbelow
      have hlt := (zpow_lt_zpow_iff_right₀ (by norm_num : (1 : ℚ) < 2)).mp hbelow
      omega
    · rw [zpow_add₀ (by norm_num)]
      push_cast
      ring

theorem representable_zero : f.Representable 0 :=
  ⟨0, f.lowest, by simp, le_rfl, f.lowest_le, by simp⟩

theorem representable_of_nearest {q d : ℚ} (h : f.nearest q = some d) : f.Representable d := by
  by_cases hq : q = 0
  · subst hq
    rw [f.nearest_of_representable f.representable_zero] at h
    cases h
    exact f.representable_zero
  · rw [nearest] at h
    split_ifs at h with hrange
    cases h
    have hlow := f.lowest_le_spacing q
    have habs : |roundEven (q / 2 ^ f.spacing q)| ≤ 2 ^ f.precision := by
      have hle := natAbs_roundEven_le (f.abs_div_spacing_lt q)
      push_cast at hle
      exact hle
    apply f.representable_of_multiple habs hlow hrange
    rcases eq_or_lt_of_le hlow with heq | hnormal
    · rw [← heq]
      exact f.lowest_le
    · have hfull : (2 : ℚ) ^ ((f.precision : ℤ) - 1 + f.spacing q) ≤ |f.rounded q| := by
        have hle := le_natAbs_roundEven (f.le_abs_div_spacing hq hnormal)
        have hcast : (2 : ℚ) ^ (f.precision - 1) ≤ |(roundEven (q / 2 ^ f.spacing q) : ℚ)| := by
          exact_mod_cast hle
        have hexp : (f.precision : ℤ) - 1 = ((f.precision - 1 : ℕ) : ℤ) := by
          have hprecision := f.precision_pos
          omega
        rw [rounded, abs_mul, abs_of_pos (two_zpow_pos _), zpow_add₀ (by norm_num), hexp,
          zpow_natCast]
        exact mul_le_mul_of_nonneg_right hcast (le_of_lt (two_zpow_pos _))
      have hlt := (zpow_lt_zpow_iff_right₀ (by norm_num : (1 : ℚ) < 2)).mp
        (lt_of_le_of_lt hfull hrange)
      omega

/-! ### Nearby rationals -/

/-- A rational within half a spacing of a multiple of its own spacing rounds to it. -/
theorem rounded_of_close {q x : ℚ} {n : ℤ} (hn : q = n * 2 ^ f.spacing x)
    (hclose : |x - q| < 2 ^ (f.spacing x - 1)) : f.rounded x = q := by
  have hpos := two_zpow_pos (f.spacing x)
  have hdiv : |x / 2 ^ f.spacing x - n| < 1 / 2 := by
    have heq : x / 2 ^ f.spacing x - n = (x - q) / 2 ^ f.spacing x := by
      rw [hn]
      field_simp
    rw [heq, abs_div, abs_of_pos hpos, div_lt_iff₀ hpos]
    calc |x - q| < 2 ^ (f.spacing x - 1) := hclose
      _ = 1 / 2 * 2 ^ f.spacing x := by
        rw [zpow_sub₀ (by norm_num)]
        ring
  rw [rounded, roundEven_eq_of_abs_lt hdiv]
  exact hn.symm

theorem abs_lt_precision_mul_spacing (q : ℚ) : |q| < 2 ^ ((f.precision : ℤ) + f.spacing q) := by
  have h := f.abs_div_spacing_lt q
  have hpos := two_zpow_pos (f.spacing q)
  rw [abs_div, abs_of_pos hpos, div_lt_iff₀ hpos] at h
  rw [zpow_add₀ (by norm_num), zpow_natCast]
  exact_mod_cast h

theorem precision_mul_spacing_le {q : ℚ} (hq : q ≠ 0) (hnormal : f.lowest < f.spacing q) :
    (2 : ℚ) ^ ((f.precision : ℤ) - 1 + f.spacing q) ≤ |q| := by
  have h := f.le_abs_div_spacing hq hnormal
  have hpos := two_zpow_pos (f.spacing q)
  have hexp : (f.precision : ℤ) - 1 = ((f.precision - 1 : ℕ) : ℤ) := by
    have hprecision := f.precision_pos
    omega
  rw [abs_div, abs_of_pos hpos, le_div_iff₀ hpos] at h
  rw [zpow_add₀ (by norm_num), hexp, zpow_natCast]
  exact_mod_cast h

/-- The magnitude of a value, counted in its own spacing. -/
theorem exists_abs_eq_mul_spacing {q : ℚ} (h : f.Representable q) :
    ∃ n : ℤ, |q| = n * 2 ^ f.spacing q ∧ n < 2 ^ f.precision := by
  obtain ⟨n, hn⟩ := f.exists_eq_mul_spacing h
  have hpos := two_zpow_pos (f.spacing q)
  have habs : |q| = (|n| : ℤ) * 2 ^ f.spacing q := by
    conv_lhs => rw [hn, abs_mul, abs_of_pos hpos]
    push_cast
    rfl
  have hlt := f.abs_lt_precision_mul_spacing q
  rw [habs, zpow_add₀ (by norm_num), zpow_natCast] at hlt
  have hcast : ((|n| : ℤ) : ℚ) < 2 ^ f.precision := lt_of_mul_lt_mul_right hlt (le_of_lt hpos)
  exact ⟨|n|, habs, by exact_mod_cast hcast⟩

/-- The spacing does not grow near a value: its neighbour above is a whole spacing away. -/
theorem spacing_le_of_close {q x : ℚ} (h : f.Representable q) (hx : x ≠ 0)
    (hclose : |x - q| < 2 ^ (f.spacing q - 1)) : f.spacing x ≤ f.spacing q := by
  by_contra hgrow
  have hgrow' : f.spacing q < f.spacing x := lt_of_not_ge hgrow
  have hnormal := lt_of_le_of_lt (f.lowest_le_spacing q) hgrow'
  obtain ⟨n, hn, hbound⟩ := f.exists_abs_eq_mul_spacing h
  have hpos := two_zpow_pos (f.spacing q)
  have hlow : (2 : ℚ) ^ f.precision * 2 ^ f.spacing q ≤ |x| := by
    calc (2 : ℚ) ^ f.precision * 2 ^ f.spacing q = 2 ^ ((f.precision : ℤ) + f.spacing q) := by
          rw [zpow_add₀ (by norm_num), zpow_natCast]
      _ ≤ 2 ^ ((f.precision : ℤ) - 1 + f.spacing x) :=
          zpow_le_zpow_right₀ (by norm_num) (by omega)
      _ ≤ |x| := f.precision_mul_spacing_le hx hnormal
  have hvalue : |q| ≤ (2 ^ f.precision - 1) * 2 ^ f.spacing q := by
    have hle : (n : ℚ) ≤ 2 ^ f.precision - 1 := by
      have hint : n ≤ 2 ^ f.precision - 1 := by omega
      exact_mod_cast hint
    rw [hn]
    exact mul_le_mul_of_nonneg_right hle (le_of_lt hpos)
  have hhalf : (2 : ℚ) ^ (f.spacing q - 1) = 2 ^ f.spacing q / 2 := by
    rw [zpow_sub₀ (by norm_num)]
    norm_num
  have hdist := abs_sub_abs_le_abs_sub x q
  rw [hhalf] at hclose
  linarith

/-- Where the spacing shrinks below a value, the value is a power of two and its
neighbour below is half a spacing away, so a relative error below half a unit is
below half the smaller spacing too. -/
theorem close_below {q x : ℚ} (h : f.Representable q) (hq : q ≠ 0)
    (hclose : |x - q| * 2 ^ (f.precision + 1) < |q|) (hshrink : f.spacing x < f.spacing q) :
    |x - q| < 2 ^ (f.spacing x - 1) := by
  obtain ⟨n, hn, -⟩ := f.exists_abs_eq_mul_spacing h
  have hS := two_zpow_pos (f.spacing q)
  have hnormal := lt_of_le_of_lt (f.lowest_le_spacing x) hshrink
  have hbits : f.precision = f.precision - 1 + 1 := (Nat.sub_add_cancel f.precision_pos).symm
  have hexp : (f.precision : ℤ) - 1 = ((f.precision - 1 : ℕ) : ℤ) := by omega
  have hlow := f.precision_mul_spacing_le hq hnormal
  have hhigh := f.abs_lt_precision_mul_spacing q
  have hx := f.abs_lt_precision_mul_spacing x
  have hdist := abs_sub_abs_le_abs_sub q x
  rw [abs_sub_comm] at hdist
  have hsplit : (f.precision : ℤ) + f.spacing q = (f.precision : ℤ) - 1 + (f.spacing q + 1) := by
    ring
  rw [hsplit, hexp, zpow_add₀ (by norm_num), zpow_natCast, zpow_add_one₀ (by norm_num)] at hhigh
  rw [hexp, zpow_add₀ (by norm_num), zpow_natCast] at hlow
  have hpow : (2 : ℚ) ^ (f.precision + 1) = 4 * 2 ^ (f.precision - 1) := by
    rw [hbits, pow_succ, pow_succ, Nat.add_sub_cancel]
    ring
  rw [hpow] at hclose
  have hP : (1 : ℚ) ≤ 2 ^ (f.precision - 1) := one_le_pow₀ (by norm_num)
  have hxle : ∀ k : ℤ, f.spacing x ≤ f.spacing q - k →
      |x| < 2 ^ (f.precision - 1) * (2 ^ f.spacing q * (2 * 2 ^ (-k))) := by
    intro k hk
    calc |x| < 2 ^ ((f.precision : ℤ) + f.spacing x) := hx
      _ ≤ 2 ^ (((f.precision - 1 : ℕ) : ℤ) + (f.spacing q + (1 + -k))) :=
          zpow_le_zpow_right₀ (by norm_num) (by omega)
      _ = 2 ^ (f.precision - 1) * (2 ^ f.spacing q * (2 * 2 ^ (-k))) := by
          rw [zpow_add₀ (by norm_num), zpow_natCast, zpow_add₀ (by norm_num),
            zpow_add₀ (by norm_num) 1 (-k), zpow_one]
  have hx1 := hxle 1 (by omega)
  norm_num at hx1
  -- the magnitude of the value is exactly the smallest full significand
  have herror : |x - q| < 2 ^ f.spacing q / 2 := by
    have hlt : |x - q| * (4 * 2 ^ (f.precision - 1)) <
        2 ^ f.spacing q / 2 * (4 * 2 ^ (f.precision - 1)) := by linarith
    exact lt_of_mul_lt_mul_right hlt (by positivity)
  have hexact : |q| = 2 ^ (f.precision - 1) * 2 ^ f.spacing q := by
    have hnlt : (n : ℚ) < 2 ^ (f.precision - 1) + 1 := by
      have hmul : (n : ℚ) * 2 ^ f.spacing q < (2 ^ (f.precision - 1) + 1) * 2 ^ f.spacing q := by
        rw [← hn]
        linarith
      exact lt_of_mul_lt_mul_right hmul (le_of_lt hS)
    have hnle : (n : ℚ) ≤ 2 ^ (f.precision - 1) := by
      have hint : n < 2 ^ (f.precision - 1) + 1 := by exact_mod_cast hnlt
      have hint' : n ≤ 2 ^ (f.precision - 1) := by omega
      exact_mod_cast hint'
    apply le_antisymm _ hlow
    rw [hn]
    exact mul_le_mul_of_nonneg_right hnle (le_of_lt hS)
  have hquarter : |x - q| < 2 ^ f.spacing q / 4 := by
    have hlt : |x - q| * (4 * 2 ^ (f.precision - 1)) <
        2 ^ f.spacing q / 4 * (4 * 2 ^ (f.precision - 1)) := by linarith
    exact lt_of_mul_lt_mul_right hlt (by positivity)
  have hone : f.spacing x = f.spacing q - 1 := by
    by_contra hne
    have hx2 := hxle 2 (by omega)
    have hS' : 2 ^ f.spacing q ≤ (2 : ℚ) ^ (f.precision - 1) * 2 ^ f.spacing q :=
      le_mul_of_one_le_left (le_of_lt hS) hP
    norm_num at hx2
    linarith
  have hgoal : (2 : ℚ) ^ (f.spacing x - 1) = 2 ^ f.spacing q / 4 := by
    rw [hone, sub_sub, zpow_sub₀ (by norm_num)]
    norm_num
  rw [hgoal]
  exact hquarter

/-- A rational whose relative distance from a value is below a quarter of the
precision's unit rounds to that value. -/
theorem nearest_of_close {q x : ℚ} (h : f.Representable q) (hq : q ≠ 0)
    (hclose : |x - q| * 2 ^ (f.precision + 1) < |q|) : f.nearest x = some q := by
  have hpow : (1 : ℚ) ≤ 2 ^ (f.precision + 1) := one_le_pow₀ (by norm_num)
  have hx : x ≠ 0 := by
    rintro rfl
    have hle : |q| ≤ |q| * 2 ^ (f.precision + 1) := le_mul_of_one_le_right (abs_nonneg q) hpow
    rw [zero_sub, abs_neg] at hclose
    linarith
  have herror : |x - q| < 2 ^ (f.spacing q - 1) := by
    have hhigh := f.abs_lt_precision_mul_spacing q
    have hexp : (2 : ℚ) ^ ((f.precision : ℤ) + f.spacing q) =
        2 ^ (f.spacing q - 1) * 2 ^ (f.precision + 1) := by
      rw [← zpow_natCast, ← zpow_add₀ (by norm_num)]
      congr 1
      push_cast
      ring
    rw [hexp] at hhigh
    exact lt_of_mul_lt_mul_right (lt_trans hclose hhigh) (by positivity)
  have hle := f.spacing_le_of_close h hx herror
  have hrounded : f.rounded x = q := by
    obtain ⟨n, hn⟩ := f.exists_eq_mul_spacing h
    have hexp : ((f.spacing q - f.spacing x).toNat : ℤ) + f.spacing x = f.spacing q := by omega
    have hmultiple : q = (n * 2 ^ (f.spacing q - f.spacing x).toNat : ℤ) * 2 ^ f.spacing x := by
      conv_lhs => rw [hn, ← hexp, zpow_add₀ (by norm_num), zpow_natCast]
      push_cast
      ring
    apply f.rounded_of_close hmultiple
    rcases lt_or_eq_of_le hle with hshrink | heq
    · exact f.close_below h hq hclose hshrink
    · rw [heq]
      exact herror
  rw [nearest, hrounded, if_pos (f.abs_lt_of_representable h)]

end Format

end BinaryRounding
