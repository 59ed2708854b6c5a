import Mathlib.Algebra.Field.Basic
import Mathlib.Algebra.Ring.Hom.Defs
import Mathlib.Analysis.SpecialFunctions.Trigonometric.Basic
import Mathlib.Tactic.FieldSimp
import Mathlib.Tactic.LinearCombination
import Mathlib.Tactic.Ring
import SoundScreen.Lib.Dft

/-!
# SoundScreen.KissFft.Cpx

The complex numbers of `_kiss_fft_guts.h` when it is compiled for floating point. The arithmetic is
exact: a `kiss_fft_scalar` is an element of a field, so that sums and products do not round, and
`cos`, `sin` and `pi` are a parameter, `Libm`, with the laws of the functions they stand for. With
`float` or `double` what is proved here holds up to rounding.

* `C_MUL` and the others are the operations of a commutative ring.
* `kf_cexp_add`: phases add up.
* `principal_turn`: the `n`-th part of a turn is a root whose transform can be undone.
-/

namespace SoundScreen
namespace KissFft

/-- `kiss_fft_cpx`. -/
@[ext]
structure Cpx (R : Type*) where
  r : R
  i : R
deriving DecidableEq, Inhabited

scoped instance two_atLeastTwo : Nat.AtLeastTwo 2 := ⟨Nat.le_refl 2⟩

section Guts

variable {R : Type*} [Field R]

/-! ## The source -/

def S_MUL (a b : R) : R := a * b

def HALF_OF (x : R) : R := x * 2⁻¹

def C_MUL (a b : Cpx R) : Cpx R := ⟨a.r * b.r - a.i * b.i, a.r * b.i + a.i * b.r⟩

def C_MULBYSCALAR (c : Cpx R) (s : R) : Cpx R := ⟨c.r * s, c.i * s⟩

def C_ADD (a b : Cpx R) : Cpx R := ⟨a.r + b.r, a.i + b.i⟩

def C_SUB (a b : Cpx R) : Cpx R := ⟨a.r - b.r, a.i - b.i⟩

/-! ## The ring -/

namespace Cpx

instance : Zero (Cpx R) := ⟨⟨0, 0⟩⟩

instance : One (Cpx R) := ⟨⟨1, 0⟩⟩

instance : Add (Cpx R) := ⟨C_ADD⟩

instance : Sub (Cpx R) := ⟨C_SUB⟩

instance : Mul (Cpx R) := ⟨C_MUL⟩

instance : Neg (Cpx R) := ⟨fun a => ⟨-a.r, -a.i⟩⟩

@[simp] theorem zero_r : (0 : Cpx R).r = 0 := rfl
@[simp] theorem zero_i : (0 : Cpx R).i = 0 := rfl
@[simp] theorem one_r : (1 : Cpx R).r = 1 := rfl
@[simp] theorem one_i : (1 : Cpx R).i = 0 := rfl
@[simp] theorem add_r (a b : Cpx R) : (a + b).r = a.r + b.r := rfl
@[simp] theorem add_i (a b : Cpx R) : (a + b).i = a.i + b.i := rfl
@[simp] theorem sub_r (a b : Cpx R) : (a - b).r = a.r - b.r := rfl
@[simp] theorem sub_i (a b : Cpx R) : (a - b).i = a.i - b.i := rfl
@[simp] theorem neg_r (a : Cpx R) : (-a).r = -a.r := rfl
@[simp] theorem neg_i (a : Cpx R) : (-a).i = -a.i := rfl
@[simp] theorem mul_r (a b : Cpx R) : (a * b).r = a.r * b.r - a.i * b.i := rfl
@[simp] theorem mul_i (a b : Cpx R) : (a * b).i = a.r * b.i + a.i * b.r := rfl

instance : CommRing (Cpx R) where
  add_assoc a b c := by ext <;> simp [add_assoc]
  zero_add a := by ext <;> simp
  add_zero a := by ext <;> simp
  add_comm a b := by ext <;> simp [add_comm]
  left_distrib a b c := by ext <;> (simp; ring)
  right_distrib a b c := by ext <;> (simp; ring)
  zero_mul a := by ext <;> simp
  mul_zero a := by ext <;> simp
  mul_assoc a b c := by ext <;> (simp; ring)
  one_mul a := by ext <;> simp
  mul_one a := by ext <;> simp
  neg_add_cancel a := by ext <;> simp
  mul_comm a b := by ext <;> simp <;> ring
  sub_eq_add_neg a b := by ext <;> simp [sub_eq_add_neg]
  nsmul := nsmulRec
  zsmul := zsmulRec

end Cpx

@[simp] theorem C_MUL_eq (a b : Cpx R) : C_MUL a b = a * b := rfl
@[simp] theorem C_ADD_eq (a b : Cpx R) : C_ADD a b = a + b := rfl
@[simp] theorem C_SUB_eq (a b : Cpx R) : C_SUB a b = a - b := rfl

namespace Cpx

/-- A real number as a complex one. -/
def ofReal (x : R) : Cpx R := ⟨x, 0⟩

/-- Real numbers among the complex ones. -/
def ofRealHom : R →+* Cpx R where
  toFun := ofReal
  map_one' := rfl
  map_mul' a b := by
    ext <;> simp [ofReal]
  map_zero' := rfl
  map_add' a b := by
    ext <;> simp [ofReal]

/-- The quarter of a turn. -/
def I : Cpx R := ⟨0, 1⟩

@[simp] theorem ofReal_r (x : R) : (ofReal x).r = x := rfl
@[simp] theorem ofReal_i (x : R) : (ofReal x).i = 0 := rfl
@[simp] theorem I_r : (I : Cpx R).r = 0 := rfl
@[simp] theorem I_i : (I : Cpx R).i = 1 := rfl

@[simp] theorem natCast_r (n : Nat) : (n : Cpx R).r = n := by
  induction n with
  | zero => rw [Nat.cast_zero, Nat.cast_zero, zero_r]
  | succ n ih => rw [Nat.cast_succ, Nat.cast_succ, add_r, ih, one_r]

@[simp] theorem natCast_i (n : Nat) : (n : Cpx R).i = 0 := by
  induction n with
  | zero => rw [Nat.cast_zero, zero_i]
  | succ n ih => rw [Nat.cast_succ, add_i, ih, one_i, add_zero]

@[simp] theorem ofNat_r (n : Nat) [n.AtLeastTwo] : (OfNat.ofNat n : Cpx R).r = OfNat.ofNat n :=
  natCast_r n

@[simp] theorem ofNat_i (n : Nat) [n.AtLeastTwo] : (OfNat.ofNat n : Cpx R).i = 0 :=
  natCast_i n

theorem two_mul_r (a : Cpx R) : (2 * a).r = 2 * a.r := by
  rw [two_mul, two_mul, add_r]

theorem two_mul_i (a : Cpx R) : (2 * a).i = 2 * a.i := by
  rw [two_mul, two_mul, add_i]

theorem I_mul_I : (I : Cpx R) * I = -1 := by
  ext <;> simp

/-- The conjugate. -/
def conj : Cpx R →+* Cpx R where
  toFun a := ⟨a.r, -a.i⟩
  map_one' := by ext <;> simp
  map_mul' a b := by
    ext <;> simp
    ring
  map_zero' := by ext <;> simp
  map_add' a b := by
    ext <;> simp
    ring

@[simp] theorem conj_r (a : Cpx R) : (conj a).r = a.r := rfl
@[simp] theorem conj_i (a : Cpx R) : (conj a).i = -a.i := rfl

@[simp] theorem conj_conj (a : Cpx R) : conj (conj a) = a := by
  ext <;> simp

@[simp] theorem conj_ofReal (x : R) : conj (ofReal x) = ofReal x := by
  ext <;> simp

@[simp] theorem conj_I : conj (I : Cpx R) = -I := by
  ext <;> simp

theorem ofReal_add (x y : R) : ofReal (x + y) = ofReal x + ofReal y := by
  ext <;> simp

theorem ofReal_mul (x y : R) : ofReal (x * y) = ofReal x * ofReal y := by
  ext <;> simp

theorem ofReal_natCast (n : Nat) : ofReal (n : R) = n := by
  ext <;> simp

/-- A number with a norm that is not zero can be divided by. -/
theorem isUnit_of_norm {a : Cpx R} (h : a.r * a.r + a.i * a.i ≠ 0) : IsUnit a := by
  refine IsUnit.of_mul_eq_one (ofReal (a.r * a.r + a.i * a.i)⁻¹ * conj a) ?_
  ext
  · simp only [mul_r, ofReal_r, ofReal_i, conj_r, conj_i, mul_i, one_r]
    linear_combination mul_inv_cancel₀ h
  · simp only [mul_r, ofReal_r, ofReal_i, conj_r, conj_i, mul_i, one_i]
    ring

end Cpx

end Guts

/-! ## The C library -/

/-- `cos`, `sin` and `pi` as they are in exact arithmetic. -/
structure Libm (R : Type*) [Field R] where
  cos : R → R
  sin : R → R
  pi : R
  natCast_ne_zero : ∀ n : Nat, n ≠ 0 → (n : R) ≠ 0
  cos_zero : cos 0 = 1
  sin_zero : sin 0 = 0
  cos_add : ∀ a b, cos (a + b) = cos a * cos b - sin a * sin b
  sin_add : ∀ a b, sin (a + b) = sin a * cos b + cos a * sin b
  cos_neg : ∀ a, cos (-a) = cos a
  sin_neg : ∀ a, sin (-a) = -sin a
  cos_quarter : cos (pi * 2⁻¹) = 0
  sin_quarter : sin (pi * 2⁻¹) = 1
  /-- No part of a turn ends where it began. -/
  cos_part : ∀ i n : Nat, 0 < i → i < n → cos (2 * pi * i / n) ≠ 1

/-- The real numbers. -/
noncomputable def Libm.real : Libm ℝ where
  cos := Real.cos
  sin := Real.sin
  pi := Real.pi
  natCast_ne_zero n hn := Nat.cast_ne_zero.mpr hn
  cos_zero := Real.cos_zero
  sin_zero := Real.sin_zero
  cos_add := Real.cos_add
  sin_add := Real.sin_add
  cos_neg := Real.cos_neg
  sin_neg := Real.sin_neg
  cos_quarter := by rw [← div_eq_mul_inv, Real.cos_pi_div_two]
  sin_quarter := by rw [← div_eq_mul_inv, Real.sin_pi_div_two]
  cos_part i n hpos hlt := by
    intro h
    obtain ⟨k, hk⟩ := (Real.cos_eq_one_iff _).mp h
    have hn : (n : ℝ) ≠ 0 := Nat.cast_ne_zero.mpr (by omega)
    rw [eq_div_iff hn] at hk
    have hturns : (k : ℝ) * n = i := by
      refine mul_right_cancel₀ (mul_ne_zero two_ne_zero Real.pi_ne_zero) ?_
      linear_combination hk
    have hint : k * (n : Int) = i := by exact_mod_cast hturns
    rcases Int.lt_or_le 0 k with hk | hk
    · have hle := Int.mul_le_mul_of_nonneg_right (Int.add_one_le_of_lt hk) (Int.natCast_nonneg n)
      omega
    · have hle := Int.mul_le_mul_of_nonneg_right hk (Int.natCast_nonneg n)
      omega

section Phase

variable {R : Type*} [Field R] (lib : Libm R)

/-- `kf_cexp`. -/
def kf_cexp (phase : R) : Cpx R := ⟨lib.cos phase, lib.sin phase⟩

theorem Libm.two_ne_zero (lib : Libm R) : (2 : R) ≠ 0 := by
  exact_mod_cast lib.natCast_ne_zero 2 (by decide)

theorem kf_cexp_zero : kf_cexp lib 0 = 1 := by
  ext
  · exact lib.cos_zero
  · exact lib.sin_zero

theorem kf_cexp_add (a b : R) : kf_cexp lib (a + b) = kf_cexp lib a * kf_cexp lib b := by
  ext
  · simp [kf_cexp, lib.cos_add]
  · simp only [kf_cexp, lib.sin_add, Cpx.mul_i]
    ring

theorem kf_cexp_neg (a : R) : kf_cexp lib (-a) = Cpx.conj (kf_cexp lib a) := by
  ext
  · exact lib.cos_neg a
  · exact lib.sin_neg a

theorem kf_cexp_quarter : kf_cexp lib (lib.pi * 2⁻¹) = Cpx.I := by
  ext
  · exact lib.cos_quarter
  · exact lib.sin_quarter

theorem kf_cexp_mul (n : Nat) (a : R) : kf_cexp lib (n * a) = kf_cexp lib a ^ n := by
  induction n with
  | zero => rw [Nat.cast_zero, zero_mul, kf_cexp_zero, pow_zero]
  | succ n ih => rw [Nat.cast_succ, add_mul, one_mul, kf_cexp_add, ih, pow_succ]

theorem kf_cexp_conj (a : R) : kf_cexp lib a * Cpx.conj (kf_cexp lib a) = 1 := by
  rw [← kf_cexp_neg, ← kf_cexp_add, add_neg_cancel, kf_cexp_zero]

theorem kf_cexp_half : kf_cexp lib lib.pi = -1 := by
  have htwice : lib.pi = lib.pi * 2⁻¹ + lib.pi * 2⁻¹ := by
    have htwo := lib.two_ne_zero
    field_simp
    ring
  rw [htwice, kf_cexp_add, kf_cexp_quarter, Cpx.I_mul_I]

theorem kf_cexp_turn : kf_cexp lib (2 * lib.pi) = 1 := by
  rw [two_mul, kf_cexp_add, kf_cexp_half]
  ring

/-- Away from the start of a turn the difference from it can be divided by. -/
theorem isUnit_kf_cexp_sub {a : R} (h : lib.cos a ≠ 1) : IsUnit (kf_cexp lib a - 1) := by
  refine Cpx.isUnit_of_norm ?_
  have hcircle : lib.cos a * lib.cos a + lib.sin a * lib.sin a = 1 := by
    have hr := congrArg Cpx.r (kf_cexp_conj lib a)
    simpa [kf_cexp] using hr
  have hnorm : (kf_cexp lib a - 1).r * (kf_cexp lib a - 1).r +
      (kf_cexp lib a - 1).i * (kf_cexp lib a - 1).i = 2 * (1 - lib.cos a) := by
    simp only [kf_cexp, Cpx.sub_r, Cpx.sub_i, Cpx.one_r, Cpx.one_i]
    linear_combination hcircle
  rw [hnorm]
  exact mul_ne_zero lib.two_ne_zero (sub_ne_zero.mpr fun heq => h heq.symm)

/-- The `n`-th part of a turn, back for the transform and forward for its inverse. -/
def turn (inverse : Bool) (n : Nat) : Cpx R :=
  kf_cexp lib (if inverse then 2 * lib.pi / n else -(2 * lib.pi / n))

theorem turn_conj (inverse : Bool) (n : Nat) :
    Cpx.conj (turn lib inverse n) = turn lib (!inverse) n := by
  cases inverse with
  | false => simp [turn, kf_cexp_neg]
  | true => simp [turn, kf_cexp_neg]

theorem turn_mul_conj (inverse : Bool) (n : Nat) :
    turn lib inverse n * Cpx.conj (turn lib inverse n) = 1 :=
  kf_cexp_conj lib _

theorem turn_mul_inverse (inverse : Bool) (n : Nat) :
    turn lib inverse n * turn lib (!inverse) n = 1 := by
  rw [← turn_conj, turn_mul_conj]

theorem principal_turn (inverse : Bool) {n : Nat} (hn : 0 < n) :
    Dft.Principal (turn lib inverse n) n := by
  have hne := lib.natCast_ne_zero n hn.ne'
  have hpow : ∀ d : Nat, turn lib true n ^ d = kf_cexp lib (2 * lib.pi * d / n) := by
    intro d
    rw [turn, if_pos rfl, ← kf_cexp_mul]
    congr 1
    ring
  have hone : turn lib true n ^ n = 1 := by
    rw [hpow, mul_div_cancel_right₀ _ hne, kf_cexp_turn]
  have hunit : ∀ d, 0 < d → d < n → IsUnit (turn lib true n ^ d - 1) := by
    intro d hpos hlt
    rw [hpow]
    exact isUnit_kf_cexp_sub lib (lib.cos_part d n hpos hlt)
  cases inverse with
  | true => exact .of_isUnit hone hunit
  | false =>
    have hback : turn lib false n = Cpx.conj (turn lib true n) := (turn_conj lib true n).symm
    rw [hback]
    refine .of_isUnit ?_ ?_
    · rw [← map_pow, hone, map_one]
    · intro d hpos hlt
      have hmap := (hunit d hpos hlt).map (Cpx.conj (R := R))
      rwa [map_sub, map_pow, map_one] at hmap

end Phase

end KissFft
end SoundScreen
