import Mathlib.Algebra.Order.Archimedean.Basic
import SoundScreen.Lib.FloatingPoint
import SoundScreen.Numpy

/-!
# SoundScreen.Separation.Utils

`closest_power_of_two` of `music-source-separation-py3/utils.py`, for an `int`, a `Fraction` or a
finite `float`.

* `find_eq_some`, `find_eq_none`: where the loop, which is bounded by `int(target)`, ends.
* `differences_lt_iff`: the comparison of the two differences, one of them rounded.
* `closest_iff`: for which targets the nearest power of two is returned.
-/

namespace SoundScreen
namespace Separation

open FloatingPoint

/-- A finite `float`. -/
abbrev PyFloat := binary64.Finite

inductive Number where
  | int (n : Int)
  | Fraction (q : ℚ)
  | float (x : PyFloat)

namespace Number

def val : Number → ℚ
  | .int n => n
  | .Fraction q => q
  | .float x => x.val

/-- A rounded value; there is none if the rounding overflows. -/
def or_overflow (msg : String) : Option PyFloat → Except PyError PyFloat
  | some x => .ok x
  | none => .error (.OverflowError msg)

/-- `a / b` of two `int`s. The exact quotient is rounded. -/
def true_divide (a b : Int) : Except PyError PyFloat :=
  if b = 0 then .error (.ZeroDivisionError "division by zero")
  else or_overflow "integer division result too large for a float" (binary64.ofRat (a / b))

/-- `float(n)` of an `int`. -/
def float_of_int (n : Int) : Except PyError PyFloat :=
  or_overflow "int too large to convert to float" (binary64.ofRat n)

def to_float : Number → Except PyError PyFloat
  | .int n => float_of_int n
  | .Fraction q => true_divide q.num q.den
  | .float x => .ok x

/-- The difference of two `float`s of one sign, which cannot overflow. -/
def float_sub (x y : PyFloat) : ℚ := binary64.round (x.val - y.val)

/-- `n - target`: exact unless `target` is a `float`. -/
def rsub_int (n : Int) : Number → Except PyError ℚ
  | .int m => .ok (n - m)
  | .Fraction q => .ok (n - q)
  | .float x => do
    let n ← float_of_int n
    .ok (float_sub n x)

/-- `x - target`: `target` is made a `float` first. -/
def rsub_float (x : PyFloat) (target : Number) : Except PyError ℚ := do
  let t ← target.to_float
  .ok (float_sub x t)

end Number

open Number

/-- A comparison of an `int` or a `Fraction` with a `float` is exact. The `for` loop is the first
success of its condition; after a loop without one `pwr` is not assigned. -/
def closest_power_of_two (target : Number) : Except PyError Int :=
  if 1 < target.val then
    match (List.range' 1 (truncate target.val - 1).toNat).find? fun i => target.val ≤ 2 ^ i with
    | some i => do
      let pwr : Int := 2 ^ i
      let above ← rsub_int pwr target
      let half ← true_divide pwr 2
      let below ← rsub_float half target
      if |above| < |below| then .ok pwr
      else
        let half ← true_divide pwr 2
        .ok (truncate half.val)
    | none =>
      .error (.UnboundLocalError "local variable 'pwr' referenced before assignment")
  else .ok 1

/-- `ModelConfig.L_HOP`, whose target `L_FRAME / 4` is a `float`. -/
def L_HOP : Except PyError Int := do
  let target ← true_divide 1024 4
  closest_power_of_two (.float target)

/-- The call returns a power of two, and no other is nearer. -/
def Closest (target : Number) : Prop :=
  ∃ p : Int, closest_power_of_two target = .ok p ∧ (∃ i : Nat, p = 2 ^ i) ∧
    ∀ j : Nat, |(p : ℚ) - target.val| ≤ |2 ^ j - target.val|

/-- The target, and for a `float` the power above it, is converted without overflow. -/
def Number.Converts : Number → Prop
  | .float x => x.val ≤ 2 ^ 1023
  | target => target.val < 2 ^ 1024 - 2 ^ 970

/-! ## Powers of two -/

section

variable {t : ℚ} {i : Nat}

theorem exists_two_pow (h : 1 < t) : ∃ i : Nat, 2 ^ i < t ∧ t ≤ 2 ^ (i + 1) := by
  obtain ⟨n, hlo, hhi⟩ := exists_mem_Ioc_zpow (zero_lt_one.trans h) (one_lt_two : (1 : ℚ) < 2)
  have hn : 0 ≤ n := by
    by_contra hneg
    have hle : (2 : ℚ) ^ (n + 1) ≤ 1 := zpow_le_one_of_nonpos₀ one_le_two (by omega)
    linarith
  lift n to Nat using hn
  exact ⟨n, by exact_mod_cast hlo, by exact_mod_cast hhi⟩

/-- No power of two is nearer to `t` than both of two that follow each other. -/
theorem two_pow_dist (t : ℚ) (i j : Nat) :
    t - 2 ^ i ≤ |2 ^ j - t| ∨ 2 ^ (i + 1) - t ≤ |2 ^ j - t| := by
  rcases Nat.lt_or_ge i j with hj | hj
  · right
    have hpow : (2 : ℚ) ^ (i + 1) ≤ 2 ^ j := pow_le_pow_right₀ one_le_two hj
    exact (sub_le_sub_right hpow t).trans (le_abs_self _)
  · left
    have hpow : (2 : ℚ) ^ j ≤ 2 ^ i := pow_le_pow_right₀ one_le_two hj
    rw [abs_sub_comm]
    exact (sub_le_sub_left hpow t).trans (le_abs_self _)

theorem add_four_le_two_pow (i : Nat) : i + 4 ≤ 2 ^ (i + 2) := by
  induction i with
  | zero => rfl
  | succ i ih =>
    have hpow : 2 ^ (i + 1 + 2) = 2 * 2 ^ (i + 2) := by ring
    omega

/-- The exponent is one of the loop's from 3 on, and below 3 for 2 alone. -/
theorem succ_lt_floor_iff (hlo : 2 ^ i < t) (hhi : t ≤ 2 ^ (i + 1)) :
    (i : Int) + 1 < ⌊t⌋ ↔ t = 2 ∨ 3 ≤ t := by
  have hfloor : (i : Int) + 1 < ⌊t⌋ ↔ (i : ℚ) + 2 ≤ t := by
    have hcast : (((i : Int) + 2 : Int) : ℚ) = i + 2 := by push_cast; rfl
    rw [← hcast, ← Int.le_floor]
    omega
  rw [hfloor]
  match i with
  | 0 =>
    norm_num at hlo hhi ⊢
    constructor
    · intro h
      exact Or.inl (le_antisymm hhi h)
    · rintro (h | h) <;> linarith
  | 1 =>
    norm_num at hlo hhi ⊢
    intro h
    linarith
  | i + 2 =>
    have hpow : ((i + 4 : Nat) : ℚ) ≤ (2 ^ (i + 2) : Nat) := by
      exact_mod_cast add_four_le_two_pow i
    have hi : (0 : ℚ) ≤ i := Nat.cast_nonneg i
    push_cast at hpow ⊢
    exact iff_of_true (by linarith) (Or.inr (by linarith))

theorem find_eq_some (hlo : 2 ^ i < t) (hhi : t ≤ 2 ^ (i + 1)) (h : (i : Int) + 1 < ⌊t⌋) :
    ((List.range' 1 (truncate t - 1).toNat).find? fun k => t ≤ 2 ^ k) = some (i + 1) := by
  have ht : 0 ≤ t := ((pow_pos two_pos i).trans hlo).le
  rw [List.find?_range'_eq_some, truncate_of_nonneg ht]
  refine ⟨decide_eq_true hhi, ?_, ?_⟩
  · rw [List.mem_range'_1]
    omega
  · intro k _ hk
    have hpow : (2 : ℚ) ^ k ≤ 2 ^ i := pow_le_pow_right₀ one_le_two (by omega)
    simp [hpow.trans_lt hlo]

theorem find_eq_none (hlo : 2 ^ i < t) (h : ⌊t⌋ ≤ (i : Int) + 1) :
    ((List.range' 1 (truncate t - 1).toNat).find? fun k => t ≤ 2 ^ k) = none := by
  have ht : 0 ≤ t := ((pow_pos two_pos i).trans hlo).le
  rw [List.find?_range'_eq_none, truncate_of_nonneg ht]
  intro k hk hkt
  have hpow : (2 : ℚ) ^ k ≤ 2 ^ i := pow_le_pow_right₀ one_le_two (by omega)
  simp [hpow.trans_lt hlo]

end

/-! ## Differences -/

theorem maxExponent_eq : (2 : ℚ) ^ binary64.maxExponent = 2 ^ 1024 :=
  zpow_natCast 2 1024

theorem overflow_eq :
    (2 : ℚ) ^ binary64.maxExponent - 2 ^ (binary64.maxExponent - binary64.digits - 1) =
      2 ^ 1024 - 2 ^ 970 := by
  have hexp : binary64.maxExponent - binary64.digits - 1 = (970 : Nat) := by decide
  rw [maxExponent_eq, hexp, zpow_natCast]

theorem representable_mul_half {m : Int} (hm : |m| ≤ 2 ^ 53) (i : Nat) :
    binary64.Representable (m * (2 ^ i / 2)) := by
  refine ⟨m, i - 1, hm, ?_, ?_⟩
  · have hmin : binary64.minExponent = -1074 := rfl
    omega
  · rw [zpow_sub_one₀ two_ne_zero, zpow_natCast, div_eq_mul_inv]

theorem representable_two_pow (i : Nat) : binary64.Representable (2 ^ i) := by
  have hrep := representable_mul_half (show |(2 : Int)| ≤ 2 ^ 53 by decide) i
  rwa [Int.cast_two, mul_div_cancel₀ _ two_ne_zero] at hrep

/-- The rounding of the second difference does not change the comparison: the two are equal at
`3 * 2 ^ i / 2`, a `float`. -/
theorem differences_lt_iff {t : ℚ} {i : Nat} (hlo : 2 ^ i < t) :
    2 ^ (i + 1) - t < |binary64.round (2 ^ i - binary64.round t)| ↔ 3 * 2 ^ i < 2 * t := by
  have hpos : (0 : ℚ) < 2 ^ i / 2 := by positivity
  have hpow : (2 : ℚ) ^ i = 2 * (2 ^ i / 2) := (mul_div_cancel₀ _ two_ne_zero).symm
  have hsucc : (2 : ℚ) ^ (i + 1) = 4 * (2 ^ i / 2) := by ring
  have hzero := representable_mul_half (show |(0 : Int)| ≤ 2 ^ 53 by decide) i
  have hone := representable_mul_half (show |(-1 : Int)| ≤ 2 ^ 53 by decide) i
  have hthree := representable_mul_half (show |(3 : Int)| ≤ 2 ^ 53 by decide) i
  push_cast at hzero hone hthree
  rw [hsucc, hpow]
  rw [hpow] at hlo
  generalize (2 : ℚ) ^ i / 2 = half at *
  have htwo : binary64.Representable (2 * half) := hpow ▸ representable_two_pow i
  have hround : 2 * half ≤ binary64.round t := Format.le_round htwo hlo.le
  by_cases ht : 3 * half < t
  · have hge : 3 * half ≤ binary64.round t := Format.le_round hthree ht.le
    have hle : binary64.round (2 * half - binary64.round t) ≤ -1 * half :=
      Format.round_le hone (by linarith)
    have habs := neg_le_abs (binary64.round (2 * half - binary64.round t))
    exact iff_of_true (by linarith) (by linarith)
  · have hle : binary64.round t ≤ 3 * half := Format.round_le hthree (not_lt.mp ht)
    have hge : -1 * half ≤ binary64.round (2 * half - binary64.round t) :=
      Format.le_round hone (by linarith)
    have hneg : binary64.round (2 * half - binary64.round t) ≤ 0 * half :=
      Format.round_le hzero (by linarith)
    rw [abs_of_nonpos (by linarith)]
    exact iff_of_false (by linarith) (by linarith)

/-! ## The operations of the call -/

section

variable {msg : String} {x : ℚ}

theorem or_overflow_ok (hx : 0 ≤ x) (h : x < 2 ^ 1024 - 2 ^ 970) :
    ∃ y, or_overflow msg (binary64.ofRat x) = .ok y ∧ y.val = binary64.round x := by
  rw [← overflow_eq] at h
  obtain ⟨y, hy, hval⟩ := Format.ofRat_eq_some hx h
  refine ⟨y, ?_, hval⟩
  rw [hy, or_overflow]

theorem or_overflow_error (hx : 0 ≤ x) (h : 2 ^ 1024 - 2 ^ 970 ≤ x) :
    or_overflow msg (binary64.ofRat x) = .error (.OverflowError msg) := by
  rw [← overflow_eq] at h
  rw [Format.ofRat_eq_none hx h, or_overflow]

theorem two_pow_lt_overflow {i : Nat} (h : i < 1024) : (2 : ℚ) ^ i < 2 ^ 1024 - 2 ^ 970 := by
  have hround := Format.round_eq (representable_two_pow i)
  rw [← overflow_eq, ← Format.round_lt_iff, hround, maxExponent_eq]
  exact pow_lt_pow_right₀ one_lt_two h

theorem or_overflow_two_pow {i : Nat} (h : i < 1024) (hx : x = 2 ^ i) :
    ∃ y, or_overflow msg (binary64.ofRat x) = .ok y ∧ y.val = 2 ^ i := by
  subst hx
  obtain ⟨y, hy, hval⟩ := or_overflow_ok (pow_nonneg two_pos.le i) (two_pow_lt_overflow h)
  exact ⟨y, hy, hval.trans (Format.round_eq (representable_two_pow i))⟩

theorem true_divide_eq {a b : Int} (hb : b ≠ 0) (hx : (a : ℚ) / b = x) :
    true_divide a b =
      or_overflow "integer division result too large for a float" (binary64.ofRat x) := by
  rw [true_divide, if_neg hb, hx]

/-- An `int` divided by 2 that is a power of two. -/
theorem true_divide_two_pow {i : Nat} (h : i < 1024) :
    ∃ y, true_divide (2 ^ (i + 1)) 2 = .ok y ∧ y.val = 2 ^ i := by
  rw [true_divide_eq two_ne_zero rfl]
  refine or_overflow_two_pow h ?_
  push_cast
  rw [pow_succ, mul_div_cancel_right₀ _ two_ne_zero]

theorem to_float_Fraction (q : ℚ) :
    to_float (.Fraction q) =
      or_overflow "integer division result too large for a float" (binary64.ofRat q) := by
  refine true_divide_eq (Int.natCast_ne_zero.mpr q.den_ne_zero) ?_
  rw [Int.cast_natCast, Rat.num_div_den]

theorem true_divide_error {a b : Int} {e : PyError} (hb : b ≠ 0) (h : true_divide a b = .error e) :
    ∃ msg, e = .OverflowError msg := by
  rw [true_divide_eq hb rfl] at h
  cases hx : binary64.ofRat (a / b) with
  | some y =>
    rw [hx] at h
    cases h
  | none =>
    rw [hx] at h
    cases h
    exact ⟨_, rfl⟩

end

namespace Number

variable {target : Number}

/-- `float(target)` of an `int` or a `Fraction` is its rounded value, and of a `float` itself. -/
theorem to_float_ok (hpos : 0 ≤ target.val) (h : target.Converts) :
    ∃ t, target.to_float = .ok t ∧ t.val = binary64.round target.val := by
  cases target with
  | int n => exact or_overflow_ok hpos h
  | Fraction q =>
    rw [to_float_Fraction]
    exact or_overflow_ok hpos h
  | float x => exact ⟨x, rfl, (Format.round_eq x.representable).symm⟩

theorem rsub_float_ok {half : PyFloat} (hpos : 0 ≤ target.val) (h : target.Converts) :
    rsub_float half target =
      .ok (binary64.round (half.val - binary64.round target.val)) := by
  obtain ⟨t, ht, hval⟩ := to_float_ok hpos h
  rw [rsub_float, ht, ← hval]
  rfl

theorem converts_of_eq_two (h : target.val = 2) : target.Converts := by
  have hpow : (2 : ℚ) < 2 ^ 1024 - 2 ^ 970 :=
    (pow_one 2).symm.trans_lt (two_pow_lt_overflow (by decide))
  cases target with
  | int n => exact h.trans_lt hpow
  | Fraction q => exact h.trans_lt hpow
  | float x => exact h.trans_le (le_self_pow₀ one_le_two (by decide))

/-- The exponent below a target that is converted. -/
theorem lt_of_converts {i : Nat} (hlo : 2 ^ i < target.val) (h : target.Converts) : i < 1024 := by
  have hlast : (0 : ℚ) < 2 ^ 970 := by positivity
  have hlt : (2 : ℚ) ^ i < 2 ^ 1024 := by
    cases target with
    | int n => exact hlo.trans (lt_of_lt_of_le h (sub_le_self _ hlast.le))
    | Fraction q => exact hlo.trans (lt_of_lt_of_le h (sub_le_self _ hlast.le))
    | float x => exact hlo.trans ((le_abs_self _).trans_lt (maxExponent_eq ▸ x.abs_lt))
  exact (pow_lt_pow_iff_right₀ one_lt_two).mp hlt

/-- The difference of a `float` and a power of two of its binade is exact. -/
theorem rsub_int_ok {i : Nat} (hlo : 2 ^ i < target.val) (hhi : target.val ≤ 2 ^ (i + 1))
    (h : target.Converts) : rsub_int (2 ^ (i + 1)) target = .ok (2 ^ (i + 1) - target.val) := by
  cases target with
  | int n => simp [rsub_int, val]
  | Fraction q => simp [rsub_int, val]
  | float x =>
    have hi : i < 1023 := (pow_lt_pow_iff_right₀ one_lt_two).mp (lt_of_lt_of_le hlo h)
    obtain ⟨p, hp, hval⟩ : ∃ p, float_of_int (2 ^ (i + 1)) = .ok p ∧ p.val = 2 ^ (i + 1) :=
      or_overflow_two_pow (by omega) (by push_cast; rfl)
    have hpow : (2 : ℚ) ^ (i + 1) = 2 * 2 ^ i := by ring
    have hx : 2 ^ i < x.val := hlo
    have hx' : x.val ≤ 2 ^ (i + 1) := hhi
    have hpos : (0 : ℚ) < 2 ^ i := by positivity
    have hexact : binary64.Representable (2 ^ (i + 1) - x.val) := by
      refine (representable_two_pow (i + 1)).sub x.representable ?_ ?_
      · rw [abs_of_nonneg (by linarith), abs_of_pos (by positivity)]
        linarith
      · rw [abs_of_nonneg (by linarith), abs_of_pos (by linarith)]
        linarith
    have hsub : float_sub p x = 2 ^ (i + 1) - x.val := by
      rw [float_sub, hval, Format.round_eq hexact]
    rw [rsub_int, hp]
    exact congrArg Except.ok hsub

end Number

section

variable {target : Number} {i : Nat}

/-- The call on a target for which the loop finds a power of two. -/
theorem closest_power_of_two_found (hlo : 2 ^ i < target.val) (hhi : target.val ≤ 2 ^ (i + 1))
    (h : target.val = 2 ∨ 3 ≤ target.val) :
    closest_power_of_two target = (do
      let above ← rsub_int (2 ^ (i + 1)) target
      let half ← true_divide (2 ^ (i + 1)) 2
      let below ← rsub_float half target
      if |above| < |below| then .ok (2 ^ (i + 1))
      else
        let half ← true_divide (2 ^ (i + 1)) 2
        .ok (truncate half.val)) := by
  have hone : 1 < target.val := (one_le_pow₀ one_le_two).trans_lt hlo
  rw [closest_power_of_two, if_pos hone,
    find_eq_some hlo hhi ((succ_lt_floor_iff hlo hhi).mpr h)]

/-- A target the loop does not reach. -/
theorem closest_power_of_two_not_found (hone : 1 < target.val) (htwo : target.val ≠ 2)
    (hthree : target.val < 3) :
    closest_power_of_two target =
      .error (.UnboundLocalError "local variable 'pwr' referenced before assignment") := by
  obtain ⟨i, hlo, hhi⟩ := exists_two_pow hone
  have hfloor : ¬(i : Int) + 1 < ⌊target.val⌋ := by
    rw [succ_lt_floor_iff hlo hhi]
    exact not_or.mpr ⟨htwo, not_le.mpr hthree⟩
  rw [closest_power_of_two, if_pos hone, find_eq_none hlo (not_lt.mp hfloor)]

/-- The call on a target that is converted. -/
theorem closest_power_of_two_ok (hlo : 2 ^ i < target.val) (hhi : target.val ≤ 2 ^ (i + 1))
    (h : target.val = 2 ∨ 3 ≤ target.val) (hconv : target.Converts) :
    closest_power_of_two target =
      .ok (if 3 * 2 ^ i < 2 * target.val then 2 ^ (i + 1) else 2 ^ i) := by
  have hpos : 0 ≤ target.val := ((pow_pos two_pos i).trans hlo).le
  obtain ⟨half, hhalf, hval⟩ := true_divide_two_pow (lt_of_converts hlo hconv)
  rw [closest_power_of_two_found hlo hhi h, rsub_int_ok hlo hhi hconv, hhalf]
  have htrunc : truncate half.val = 2 ^ i := by
    rw [hval]
    exact_mod_cast truncate_intCast (2 ^ i)
  have hcond : |2 ^ (i + 1) - target.val| <
      |binary64.round (half.val - binary64.round target.val)| ↔ 3 * 2 ^ i < 2 * target.val := by
    rw [abs_of_nonneg (sub_nonneg.mpr hhi), hval]
    exact differences_lt_iff hlo
  show (rsub_float half target >>= fun below => _) = _
  rw [rsub_float_ok hpos hconv]
  show (if |2 ^ (i + 1) - target.val| <
      |binary64.round (half.val - binary64.round target.val)| then _ else _) = _
  by_cases hlt : 3 * 2 ^ i < 2 * target.val
  · rw [if_pos (hcond.mpr hlt), if_pos hlt]
  · rw [if_neg (mt hcond.mp hlt), if_neg hlt, ← htrunc]
    rfl

theorem L_HOP_eq : L_HOP = .ok 256 := by
  obtain ⟨x, hx, hval⟩ : ∃ x, true_divide 1024 4 = .ok x ∧ x.val = 2 ^ 8 := by
    rw [true_divide_eq four_ne_zero rfl]
    exact or_overflow_two_pow (by decide) (by norm_num)
  have htarget : (Number.float x).val = 2 ^ 8 := hval
  have hconv : (Number.float x).Converts := hval.trans_le (pow_le_pow_right₀ one_le_two (by decide))
  have hcall := @closest_power_of_two_ok (.float x) 7 (by rw [htarget]; norm_num)
    (by rw [htarget]) (Or.inr (by rw [htarget]; norm_num)) hconv
  rw [htarget, if_pos (by norm_num)] at hcall
  rw [L_HOP, hx]
  exact hcall

/-- The conversion of the target for the second difference overflows. -/
theorem closest_power_of_two_to_float {above : ℚ} {msg : String} (hlo : 2 ^ i < target.val)
    (hhi : target.val ≤ 2 ^ (i + 1)) (h : target.val = 2 ∨ 3 ≤ target.val)
    (habove : rsub_int (2 ^ (i + 1)) target = .ok above)
    (hfloat : target.to_float = .error (.OverflowError msg)) :
    ∃ msg, closest_power_of_two target = .error (.OverflowError msg) := by
  rw [closest_power_of_two_found hlo hhi h, habove]
  cases hhalf : true_divide (2 ^ (i + 1)) 2 with
  | error e =>
    obtain ⟨msg, rfl⟩ := true_divide_error two_ne_zero hhalf
    exact ⟨msg, rfl⟩
  | ok half =>
    have hbelow : rsub_float half target = .error (.OverflowError msg) := by
      rw [rsub_float, hfloat]
      rfl
    refine ⟨msg, ?_⟩
    show (rsub_float half target >>= fun below => _) = _
    rw [hbelow]
    rfl

theorem closest_power_of_two_overflow (hlo : 2 ^ i < target.val) (hhi : target.val ≤ 2 ^ (i + 1))
    (h : target.val = 2 ∨ 3 ≤ target.val) (hconv : ¬target.Converts) :
    ∃ msg, closest_power_of_two target = .error (.OverflowError msg) := by
  have hpos : 0 ≤ target.val := ((pow_pos two_pos i).trans hlo).le
  cases target with
  | int n =>
    exact closest_power_of_two_to_float hlo hhi h rfl (or_overflow_error hpos (not_lt.mp hconv))
  | Fraction q =>
    have hfloat := (to_float_Fraction q).trans (or_overflow_error hpos (not_lt.mp hconv))
    exact closest_power_of_two_to_float hlo hhi h rfl hfloat
  | float x =>
    -- The power above `target` is at least `2 ^ 1024`.
    have hpow : (2 : ℚ) ^ 1023 < 2 ^ (i + 1) := lt_of_lt_of_le (not_le.mp hconv) hhi
    have hi : 1023 < i + 1 := (pow_lt_pow_iff_right₀ one_lt_two).mp hpow
    have hbig : (2 : ℚ) ^ 1024 ≤ 2 ^ (i + 1) := pow_le_pow_right₀ one_le_two (by omega)
    have hlast : (0 : ℚ) ≤ 2 ^ 970 := by positivity
    have hcast : ((2 ^ (i + 1) : Int) : ℚ) = 2 ^ (i + 1) := by push_cast; rfl
    have hfloat : float_of_int (2 ^ (i + 1)) =
        .error (.OverflowError "int too large to convert to float") := by
      rw [float_of_int, hcast]
      exact or_overflow_error (by positivity) ((sub_le_self _ hlast).trans hbig)
    rw [closest_power_of_two_found hlo hhi h, rsub_int, hfloat]
    exact ⟨_, rfl⟩

theorem closest_of_le_one (h : target.val ≤ 1) : Closest target := by
  refine ⟨1, if_neg (not_lt.mpr h), ⟨0, rfl⟩, ?_⟩
  intro j
  have hpow : (1 : ℚ) ≤ 2 ^ j := one_le_pow₀ one_le_two
  rw [Int.cast_one, abs_of_nonneg (sub_nonneg.mpr h)]
  exact (sub_le_sub_right hpow _).trans (le_abs_self _)

/-- The nearer of the two powers next to the target is the nearest of all. -/
theorem closest_of_ok (hlo : 2 ^ i < target.val) (hhi : target.val ≤ 2 ^ (i + 1))
    (h : closest_power_of_two target =
      .ok (if 3 * 2 ^ i < 2 * target.val then 2 ^ (i + 1) else 2 ^ i)) : Closest target := by
  have hsucc : (2 : ℚ) ^ (i + 1) = 2 * 2 ^ i := by ring
  refine ⟨_, h, ?_, ?_⟩
  · split_ifs
    · exact ⟨i + 1, rfl⟩
    · exact ⟨i, rfl⟩
  intro j
  split_ifs with hnear
  · push_cast
    rw [abs_of_nonneg (sub_nonneg.mpr hhi)]
    rcases two_pow_dist target.val i j with hj | hj <;> linarith
  · push_cast
    rw [abs_of_nonpos (sub_nonpos.mpr hlo.le)]
    rcases two_pow_dist target.val i j with hj | hj <;> linarith

theorem not_closest_of_error {e : PyError} (h : closest_power_of_two target = .error e) :
    ¬Closest target := by
  rintro ⟨p, hp, -⟩
  rw [h] at hp
  cases hp

end

/-- **The closest power of two.** It is returned, of all targets greater than 1, for 2 and for
those from 3 on that are converted. Between 1 and 2, and between 2 and 3, the loop ends before
it reaches a power. -/
theorem closest_iff (target : Number) :
    Closest target ↔
      target.val ≤ 1 ∨ target.val = 2 ∨ 3 ≤ target.val ∧ target.Converts := by
  rcases le_or_gt target.val 1 with hle | hone
  · exact iff_of_true (closest_of_le_one hle) (Or.inl hle)
  obtain ⟨i, hlo, hhi⟩ := exists_two_pow hone
  by_cases h : target.val = 2 ∨ 3 ≤ target.val
  · by_cases hconv : target.Converts
    · refine iff_of_true (closest_of_ok hlo hhi (closest_power_of_two_ok hlo hhi h hconv)) ?_
      rcases h with htwo | hthree
      · exact Or.inr (Or.inl htwo)
      · exact Or.inr (Or.inr ⟨hthree, hconv⟩)
    · obtain ⟨msg, herr⟩ := closest_power_of_two_overflow hlo hhi h hconv
      refine iff_of_false (not_closest_of_error herr) ?_
      rintro (hle | htwo | ⟨-, hconv'⟩)
      · exact not_lt.mpr hle hone
      · exact hconv (converts_of_eq_two htwo)
      · exact hconv hconv'
  · obtain ⟨htwo, hthree⟩ := not_or.mp h
    have herr := closest_power_of_two_not_found hone htwo (not_le.mp hthree)
    refine iff_of_false (not_closest_of_error herr) ?_
    rintro (hle | htwo' | ⟨hthree', -⟩)
    · exact not_lt.mpr hle hone
    · exact htwo htwo'
    · exact hthree hthree'

/-- `int(target)` is 1 and the loop has no pass. -/
theorem three_halves_raises :
    closest_power_of_two (.Fraction (3 / 2)) =
      .error (.UnboundLocalError "local variable 'pwr' referenced before assignment") ∧
    ¬Closest (.Fraction (3 / 2)) := by
  have hval : (Number.Fraction (3 / 2)).val = 3 / 2 := rfl
  have herr := closest_power_of_two_not_found (by rw [hval]; norm_num) (by rw [hval]; norm_num)
    (by rw [hval]; norm_num)
  exact ⟨herr, not_closest_of_error herr⟩

end Separation
end SoundScreen
