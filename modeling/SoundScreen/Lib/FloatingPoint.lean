import Mathlib.Algebra.Order.Field.Power
import Mathlib.Algebra.Ring.Int.Parity
import Mathlib.Data.Int.Log
import Mathlib.Data.Rat.Floor
import Mathlib.Tactic.Linarith
import Mathlib.Tactic.Positivity
import Mathlib.Tactic.Ring

/-!
# SoundScreen.Lib.FloatingPoint

Binary floating-point formats: their numbers as rationals, and rounding to the nearest, ties to
even.

* `round_le`, `le_round`: rounding does not cross a representable number.
* `Representable.sub`: a difference that is not larger than either operand is exact.
* `round_lt_iff`: where rounding overflows.
-/

namespace SoundScreen
namespace FloatingPoint

/-- The nearest integer, of two the even one. -/
def roundEven (x : ℚ) : Int :=
  if x - ⌊x⌋ < 1 / 2 then ⌊x⌋
  else if 1 / 2 < x - ⌊x⌋ then ⌊x⌋ + 1
  else if Even ⌊x⌋ then ⌊x⌋
  else ⌊x⌋ + 1

theorem floor_le_roundEven (x : ℚ) : ⌊x⌋ ≤ roundEven x := by
  unfold roundEven
  split_ifs <;> omega

theorem roundEven_le_floor_add_one (x : ℚ) : roundEven x ≤ ⌊x⌋ + 1 := by
  unfold roundEven
  split_ifs <;> omega

theorem le_roundEven {x : ℚ} {n : Int} (h : n ≤ x) : n ≤ roundEven x :=
  (Int.le_floor.mpr h).trans (floor_le_roundEven x)

theorem roundEven_le {x : ℚ} {n : Int} (h : x ≤ n) : roundEven x ≤ n := by
  rcases h.lt_or_eq with hlt | rfl
  · have hfloor : ⌊x⌋ < n := Int.floor_lt.mpr hlt
    have := roundEven_le_floor_add_one x
    omega
  · unfold roundEven
    rw [Int.floor_intCast, sub_self, if_pos one_half_pos]

/-- The half below an even number rounds up to it. -/
theorem roundEven_lt_iff {x : ℚ} {n : Int} (hn : Even n) :
    roundEven x < n ↔ x < n - 1 / 2 := by
  rcases lt_trichotomy ⌊x⌋ (n - 1) with hfloor | hfloor | hfloor
  · have hx : x < (n - 1 : Int) := Int.floor_lt.mp hfloor
    have hround := roundEven_le_floor_add_one x
    push_cast at hx
    exact iff_of_true (by omega) (by linarith)
  · have hodd : ¬Even ⌊x⌋ := by
      rw [hfloor, Int.even_sub_one, not_not]
      exact hn
    have hcast : (⌊x⌋ : ℚ) = n - 1 := by
      rw [hfloor]
      push_cast
      rfl
    unfold roundEven
    by_cases hhalf : x - ⌊x⌋ < 1 / 2
    · rw [if_pos hhalf]
      rw [hcast] at hhalf
      exact iff_of_true (by omega) (by linarith)
    · rw [if_neg hhalf, if_neg hodd, ite_self]
      rw [hcast] at hhalf
      exact iff_of_false (by omega) (by linarith)
  · have hx : (n : ℚ) ≤ x := Int.le_floor.mp (by omega)
    have hround := le_roundEven hx
    exact iff_of_false (by omega) (by linarith)

/-- `digits` binary digits, the last of them worth at least `2 ^ minExponent`; the numbers are
below `2 ^ maxExponent`. -/
structure Format where
  digits : Nat
  minExponent : Int
  maxExponent : Int
  digits_pos : 0 < digits
  minExponent_le : minExponent ≤ maxExponent - digits

def binary64 : Format := ⟨53, -1074, 1024, by decide, by decide⟩

namespace Format

variable (f : Format)

/-- The exponent of the last digit of `x`. -/
def exponent (x : ℚ) : Int := max (Int.log 2 |x| + 1 - f.digits) f.minExponent

def round (x : ℚ) : ℚ := roundEven (x / 2 ^ f.exponent x) * 2 ^ f.exponent x

def Representable (y : ℚ) : Prop :=
  ∃ m k : Int, |m| ≤ 2 ^ f.digits ∧ f.minExponent ≤ k ∧ y = m * 2 ^ k

variable {f}

theorem Representable.neg {y : ℚ} (h : f.Representable y) : f.Representable (-y) := by
  obtain ⟨m, k, hm, hk, rfl⟩ := h
  refine ⟨-m, k, (abs_neg m).le.trans hm, hk, ?_⟩
  push_cast
  ring

theorem Representable.two_zpow {k : Int} (hk : f.minExponent ≤ k) :
    f.Representable (2 ^ k) := by
  refine ⟨1, k, ?_, hk, ?_⟩
  · rw [abs_one]
    exact one_le_pow₀ (by norm_num)
  · rw [Int.cast_one, one_mul]

/-- A multiple of a power of two is one of every smaller power of two. -/
theorem mul_two_zpow {k e : Int} (h : e ≤ k) (m : Int) :
    (m : ℚ) * 2 ^ k = (m * 2 ^ (k - e).toNat : Int) * 2 ^ e := by
  have hk : ((k - e).toNat : Int) + e = k := by omega
  push_cast
  rw [mul_assoc, ← zpow_natCast, ← zpow_add₀ two_ne_zero, hk]

/-- A number whose last digit is not the smallest has all its digits. -/
theorem two_zpow_le_abs {x : ℚ} (hx : x ≠ 0) (h : f.minExponent < f.exponent x) :
    (2 : ℚ) ^ (f.exponent x + f.digits - 1) ≤ |x| := by
  have hlog : f.exponent x + f.digits - 1 = Int.log 2 |x| := by
    unfold exponent at h ⊢
    omega
  rw [hlog]
  exact_mod_cast Int.zpow_log_le_self one_lt_two (abs_pos.mpr hx)

theorem abs_le_two_zpow {m k e : Int} (hm : |m| ≤ 2 ^ f.digits) (h : k < e) :
    |(m : ℚ) * 2 ^ k| ≤ 2 ^ (e + f.digits - 1) := by
  have hm' : |(m : ℚ)| ≤ 2 ^ f.digits := by exact_mod_cast hm
  rw [abs_mul, abs_of_pos (zpow_pos two_pos k : (0 : ℚ) < 2 ^ k)]
  calc |(m : ℚ)| * 2 ^ k
      ≤ 2 ^ f.digits * 2 ^ k := mul_le_mul_of_nonneg_right hm' (zpow_nonneg two_pos.le k)
    _ = 2 ^ (f.digits + k : Int) := by rw [← zpow_natCast, ← zpow_add₀ two_ne_zero]
    _ ≤ 2 ^ (e + f.digits - 1) := zpow_le_zpow_right₀ one_le_two (by omega)

/-- Between a number and a representable one there is a multiple of the last digit. -/
theorem Representable.exists_le {x y : ℚ} (hy : f.Representable y) (h : x ≤ y) :
    ∃ n : Int, x ≤ n * 2 ^ f.exponent x ∧ n * 2 ^ f.exponent x ≤ y := by
  obtain ⟨m, k, hm, hk, rfl⟩ := hy
  rcases le_or_gt (f.exponent x) k with he | he
  · refine ⟨m * 2 ^ (k - f.exponent x).toNat, ?_, ?_⟩
    · rw [← mul_two_zpow he]
      exact h
    · rw [← mul_two_zpow he]
  rcases eq_or_ne x 0 with rfl | hx
  · refine ⟨0, ?_, ?_⟩
    · rw [Int.cast_zero, zero_mul]
    · rw [Int.cast_zero, zero_mul]
      exact h
  -- The representable number has a smaller last digit, so it is no larger than `x`.
  have hxbig := two_zpow_le_abs hx (hk.trans_lt he)
  have hysmall := abs_le_two_zpow hm he
  have hpow : (2 : ℚ) ^ (f.exponent x + f.digits - 1) =
      (2 ^ (f.digits - 1) : Int) * 2 ^ f.exponent x := by
    have := f.digits_pos
    have hsum : f.exponent x + f.digits - 1 = (f.digits - 1 : Nat) + f.exponent x := by omega
    push_cast
    rw [hsum, zpow_add₀ two_ne_zero, zpow_natCast]
  have hyabs := abs_le.mp hysmall
  rcases hx.lt_or_gt with hneg | hpos
  · rw [abs_of_neg hneg] at hxbig
    refine ⟨-2 ^ (f.digits - 1), ?_, ?_⟩
    · rw [Int.cast_neg, neg_mul, ← hpow]
      linarith
    · rw [Int.cast_neg, neg_mul, ← hpow]
      exact hyabs.1
  · rw [abs_of_pos hpos] at hxbig
    refine ⟨2 ^ (f.digits - 1), ?_, ?_⟩
    · rw [← hpow]
      exact h.trans hyabs.2
    · rw [← hpow]
      exact hxbig.trans h

theorem exponent_neg (x : ℚ) : f.exponent (-x) = f.exponent x := by
  rw [exponent, exponent, abs_neg]

theorem Representable.exists_ge {x y : ℚ} (hy : f.Representable y) (h : y ≤ x) :
    ∃ n : Int, y ≤ n * 2 ^ f.exponent x ∧ n * 2 ^ f.exponent x ≤ x := by
  obtain ⟨n, hle, hge⟩ := hy.neg.exists_le (neg_le_neg h)
  rw [exponent_neg] at hle hge
  refine ⟨-n, ?_, ?_⟩
  · push_cast
    linarith
  · push_cast
    linarith

theorem round_le {x y : ℚ} (hy : f.Representable y) (h : x ≤ y) : f.round x ≤ y := by
  obtain ⟨n, hle, hge⟩ := hy.exists_le h
  have hpos : (0 : ℚ) < 2 ^ f.exponent x := zpow_pos two_pos _
  have hround : roundEven (x / 2 ^ f.exponent x) ≤ n :=
    roundEven_le ((div_le_iff₀ hpos).mpr hle)
  have hcast : (roundEven (x / 2 ^ f.exponent x) : ℚ) ≤ n := by exact_mod_cast hround
  exact (mul_le_mul_of_nonneg_right hcast hpos.le).trans hge

theorem le_round {x y : ℚ} (hy : f.Representable y) (h : y ≤ x) : y ≤ f.round x := by
  obtain ⟨n, hle, hge⟩ := hy.exists_ge h
  have hpos : (0 : ℚ) < 2 ^ f.exponent x := zpow_pos two_pos _
  have hround : n ≤ roundEven (x / 2 ^ f.exponent x) :=
    le_roundEven ((le_div_iff₀ hpos).mpr hge)
  have hcast : (n : ℚ) ≤ roundEven (x / 2 ^ f.exponent x) := by exact_mod_cast hround
  exact hle.trans (mul_le_mul_of_nonneg_right hcast hpos.le)

theorem round_eq {x : ℚ} (hx : f.Representable x) : f.round x = x :=
  le_antisymm (round_le hx le_rfl) (le_round hx le_rfl)

theorem round_representable (x : ℚ) : f.Representable (f.round x) := by
  have hpos : (0 : ℚ) < 2 ^ f.exponent x := zpow_pos two_pos _
  have hdigits : |x| ≤ (2 ^ f.digits : Int) * 2 ^ f.exponent x := by
    calc |x| ≤ 2 ^ (Int.log 2 |x| + 1) := by
          exact_mod_cast (Int.lt_zpow_succ_log_self one_lt_two |x|).le
      _ ≤ 2 ^ (f.digits + f.exponent x : Int) := by
          refine zpow_le_zpow_right₀ one_le_two ?_
          unfold exponent
          omega
      _ = (2 ^ f.digits : Int) * 2 ^ f.exponent x := by
          push_cast
          rw [zpow_add₀ two_ne_zero, zpow_natCast]
  obtain ⟨hlo, hhi⟩ := abs_le.mp hdigits
  refine ⟨roundEven (x / 2 ^ f.exponent x), f.exponent x, abs_le.mpr ⟨?_, ?_⟩, le_max_right _ _,
    rfl⟩
  · refine le_roundEven ((le_div_iff₀ hpos).mpr ?_)
    push_cast at hlo ⊢
    linarith
  · exact roundEven_le ((div_le_iff₀ hpos).mpr hhi)

/-- The difference is a multiple of the smaller last digit. -/
theorem representable_sub_of_le {m n k l : Int} (hm : |m| ≤ 2 ^ f.digits)
    (hk : f.minExponent ≤ k) (hkl : k ≤ l)
    (h : |(m : ℚ) * 2 ^ k - n * 2 ^ l| ≤ |(m : ℚ) * 2 ^ k|) :
    f.Representable (m * 2 ^ k - n * 2 ^ l) := by
  have hpos : (0 : ℚ) < 2 ^ k := zpow_pos two_pos k
  have hsub : (m : ℚ) * 2 ^ k - n * 2 ^ l = (m - n * 2 ^ (l - k).toNat : Int) * 2 ^ k := by
    rw [mul_two_zpow hkl, Int.cast_sub, sub_mul]
  rw [hsub, abs_mul, abs_mul] at h
  have hle : |((m - n * 2 ^ (l - k).toNat : Int) : ℚ)| ≤ |(m : ℚ)| :=
    le_of_mul_le_mul_right h (abs_pos.mpr hpos.ne')
  refine ⟨m - n * 2 ^ (l - k).toNat, k, ?_, hk, hsub⟩
  exact (by exact_mod_cast hle : |m - n * 2 ^ (l - k).toNat| ≤ |m|).trans hm

theorem Representable.sub {x y : ℚ} (hx : f.Representable x) (hy : f.Representable y)
    (hxy : |x - y| ≤ |x|) (hyx : |x - y| ≤ |y|) : f.Representable (x - y) := by
  obtain ⟨m, k, hm, hk, rfl⟩ := hx
  obtain ⟨n, l, hn, hl, rfl⟩ := hy
  rcases le_total k l with hkl | hlk
  · exact representable_sub_of_le hm hk hkl hxy
  · rw [abs_sub_comm] at hyx
    rw [← neg_sub]
    exact (representable_sub_of_le hn hl hlk hyx).neg

theorem exponent_eq {x : ℚ} (hlo : 2 ^ (f.maxExponent - 1) ≤ x) (hhi : x < 2 ^ f.maxExponent) :
    f.exponent x = f.maxExponent - f.digits := by
  have hx : 0 < x := (zpow_pos two_pos (f.maxExponent - 1)).trans_le hlo
  have hge : f.maxExponent - 1 ≤ Int.log 2 x :=
    (Int.zpow_le_iff_le_log one_lt_two hx).mp (by exact_mod_cast hlo)
  have hlt : Int.log 2 x < f.maxExponent :=
    (Int.lt_zpow_iff_log_lt one_lt_two hx).mp (by exact_mod_cast hhi)
  have := f.minExponent_le
  rw [exponent, abs_of_pos hx]
  omega

/-- From half a last digit below the largest power on, rounding reaches it. -/
theorem round_lt_iff {x : ℚ} :
    f.round x < 2 ^ f.maxExponent ↔
      x < 2 ^ f.maxExponent - 2 ^ (f.maxExponent - f.digits - 1) := by
  have hdigits := f.digits_pos
  have hmin := f.minExponent_le
  have hhalf : (2 : ℚ) ^ f.maxExponent = 2 ^ (f.maxExponent - 1) + 2 ^ (f.maxExponent - 1) := by
    rw [← two_mul, ← zpow_one_add₀ two_ne_zero, add_sub_cancel]
  have hlast : (0 : ℚ) < 2 ^ (f.maxExponent - f.digits - 1) := zpow_pos two_pos _
  rcases le_or_gt ((2 : ℚ) ^ f.maxExponent) x with hbig | hbig
  · have hround : 2 ^ f.maxExponent ≤ f.round x :=
      le_round (Representable.two_zpow (by omega)) hbig
    exact iff_of_false (not_lt.mpr hround) (by linarith)
  rcases lt_or_ge x ((2 : ℚ) ^ (f.maxExponent - 1)) with hsmall | hsmall
  · have hround : f.round x ≤ 2 ^ (f.maxExponent - 1) :=
      round_le (Representable.two_zpow (by omega)) hsmall.le
    have hpos : (0 : ℚ) < 2 ^ (f.maxExponent - 1) := zpow_pos two_pos _
    have hle : (2 : ℚ) ^ (f.maxExponent - f.digits - 1) ≤ 2 ^ (f.maxExponent - 1) :=
      zpow_le_zpow_right₀ one_le_two (by omega)
    exact iff_of_true (by linarith) (by linarith)
  -- Just below `2 ^ maxExponent` a number has `2 ^ digits` last digits.
  have hpos : (0 : ℚ) < 2 ^ (f.maxExponent - f.digits) := zpow_pos two_pos _
  have heven : Even ((2 : Int) ^ f.digits) := (even_two).pow_of_ne_zero f.digits_pos.ne'
  have hfull : (2 : ℚ) ^ f.maxExponent =
      (2 ^ f.digits : Int) * 2 ^ (f.maxExponent - f.digits) := by
    push_cast
    rw [← zpow_natCast, ← zpow_add₀ two_ne_zero, add_sub_cancel]
  have hunit : (2 : ℚ) ^ (f.maxExponent - f.digits - 1) =
      1 / 2 * 2 ^ (f.maxExponent - f.digits) := by
    rw [zpow_sub_one₀ two_ne_zero]
    ring
  rw [round, exponent_eq hsmall hbig, hunit, hfull, ← sub_mul, mul_lt_mul_iff_left₀ hpos,
    Int.cast_lt, roundEven_lt_iff heven, div_lt_iff₀ hpos]

/-- The numbers of the format. -/
structure Finite (f : Format) where
  val : ℚ
  representable : f.Representable val
  abs_lt : |val| < 2 ^ f.maxExponent

/-- Rounded to the format; `none` if that overflows. -/
def ofRat (f : Format) (x : ℚ) : Option f.Finite :=
  if h : |f.round x| < 2 ^ f.maxExponent then some ⟨f.round x, round_representable x, h⟩ else none

theorem abs_round_of_nonneg {x : ℚ} (hx : 0 ≤ x) : |f.round x| = f.round x := by
  refine abs_of_nonneg (le_round ⟨0, f.minExponent, ?_, le_rfl, ?_⟩ hx)
  · rw [abs_zero]
    positivity
  · rw [Int.cast_zero, zero_mul]

theorem ofRat_eq_some {x : ℚ} (hx : 0 ≤ x)
    (h : x < 2 ^ f.maxExponent - 2 ^ (f.maxExponent - f.digits - 1)) :
    ∃ y, f.ofRat x = some y ∧ y.val = f.round x := by
  have hlt : |f.round x| < 2 ^ f.maxExponent := by
    rw [abs_round_of_nonneg hx]
    exact round_lt_iff.mpr h
  exact ⟨_, dif_pos hlt, rfl⟩

theorem ofRat_eq_none {x : ℚ} (hx : 0 ≤ x)
    (h : 2 ^ f.maxExponent - 2 ^ (f.maxExponent - f.digits - 1) ≤ x) : f.ofRat x = none := by
  refine dif_neg ?_
  rw [abs_round_of_nonneg hx, round_lt_iff]
  exact not_lt.mpr h

end Format

end FloatingPoint
end SoundScreen
